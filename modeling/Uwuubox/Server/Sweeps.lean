import Uwuubox.Server.Explore
import Uwuubox.Server.Facts
import Uwuubox.Server.Footprint
import Uwuubox.Table.Oldest

/-!
# The sweeper keeps up

`run_once` of `src/expiry.rs` removes at most 500 files and 500 pastes, the first to expire.  Other requests go on
meanwhile, and what a removal does after its `DELETE` may fail.

* `World.DueBy` — the item is there, and expires by a time; `dueFiles`, `duePastes` — these items.
* `Other` — a step of another request; a row that it inserts expires later.
* `amid` — a step of the sweeper, and what the others do until its next one.
* `sweep_takes` — a sweep takes 500 of the files and 500 of the pastes that expire by a time, or all of them.
* `sweeps_keep_up` — **no item waits for longer than the items before it take**.
-/

namespace Uwuubox
namespace Server

open Dedupe Storage Table

/-! ## What expires by a time -/

/-- `expires_at <= t` -/
def expiresBy (t : ℤ) (expiresAt : Option ℤ) : Bool := expiresAt.any fun at' => at' ≤ t

/-- The item is there, and expires by `t`. -/
def World.DueBy (w : World) (t : ℤ) (item : Item) : Prop :=
  w.Has item ∧ ∃ guards, w.Guarded guards item ∧ expiresBy t guards.expiresAt = true

/-- The files that expire by `t`. -/
def World.dueFiles (w : World) (t : ℤ) : List Core :=
  ((w.dedupe.files.rows.map w.fileOf).filter fun file => expiresBy t file.expiresAt).map fun file => file.idCore

/-- The pastes that expire by `t`. -/
def World.duePastes (w : World) (t : ℤ) : List Core :=
  (w.pastes.rows.filter fun paste => expiresBy t paste.expiresAt).map PasteRow.idCore

section Due

variable {w : World} {t : ℤ} {core : Core}

theorem mem_dueFiles : core ∈ w.dueFiles t ↔ w.DueBy t (.file core) := by
  unfold World.dueFiles
  rw [List.mem_map]
  constructor
  · rintro ⟨file, hfile, rfl⟩
    obtain ⟨hmem, hdue⟩ := List.mem_filter.1 hfile
    obtain ⟨row, hrow, rfl⟩ := List.mem_map.1 hmem
    exact ⟨⟨row, hrow, rfl⟩, (w.fileOf row).guards, guarded_fileOf w row, hdue⟩
  · rintro ⟨⟨row, hrow, rfl⟩, guards, hguards, hdue⟩
    refine ⟨w.fileOf row, List.mem_filter.2 ⟨List.mem_map_of_mem hrow, ?_⟩, rfl⟩
    rwa [← hguards row hrow rfl] at hdue

theorem mem_duePastes : core ∈ w.duePastes t ↔ w.DueBy t (.paste core) := by
  unfold World.duePastes
  rw [List.mem_map]
  constructor
  · rintro ⟨paste, hpaste, rfl⟩
    obtain ⟨hmem, hdue⟩ := List.mem_filter.1 hpaste
    exact ⟨⟨paste, hmem, rfl⟩, paste.guards, guarded_paste hmem, hdue⟩
  · rintro ⟨⟨paste, hpaste, rfl⟩, guards, hguards, hdue⟩
    refine ⟨paste, List.mem_filter.2 ⟨hpaste, ?_⟩, rfl⟩
    rwa [← hguards paste hpaste rfl] at hdue

theorem nodup_allFiles (w : World) : (w.dedupe.files.rows.map w.fileOf).Nodup := by
  have hcores : ((w.dedupe.files.rows.map w.fileOf).map fun file => file.idCore).Nodup := by
    rw [List.map_map]
    exact w.dedupe.files.uniqueCore
  exact hcores.of_map _

theorem nodup_dueFiles : (w.dueFiles t).Nodup := by
  have hcores : ((w.dedupe.files.rows.map w.fileOf).map fun file => file.idCore).Nodup := by
    rw [List.map_map]
    exact w.dedupe.files.uniqueCore
  exact hcores.sublist (List.filter_sublist.map _)

theorem nodup_duePastes : (w.duePastes t).Nodup := List.Nodup.sublist (List.filter_sublist.map _) w.pastes.unique

end Due

/-! ## What the others do -/

/-- Time has passed, and what expires by `t` has done so before. -/
def Later (t : ℤ) (w w' : World) : Prop := w.now ≤ w'.now ∧ ∀ item, w'.DueBy t item → w.DueBy t item

/-- A step of another request, which may fail; a row that it inserts does not expire by `t`. -/
def Other (t : ℤ) (w w' : World) : Prop :=
  ∃ op r, exec (fun _ => True) w op r w' ∧ ∀ item, op.newItem r = some item → ¬ w'.DueBy t item

/-- A step of the sweeper, and what the others do until its next one. -/
def amid (mayFail : Op → Prop) (t : ℤ) (w : World) (op : Op) (r : op.Res) (w' : World) : Prop :=
  ∃ v, exec mayFail w op r v ∧ Relation.ReflTransGen (Other t) v w'

section Later

variable {mayFail : Op → Prop} {t : ℤ} {w v w' : World} {op : Op} {r : op.Res}

theorem Later.refl : Later t w w := ⟨le_rfl, fun _ h => h⟩

theorem Later.trans (h : Later t w v) (h' : Later t v w') : Later t w w' :=
  ⟨h.1.trans h'.1, fun item hdue => h.2 item (h'.2 item hdue)⟩

theorem length_of_later (h : Later t w w') : (w'.dueFiles t).length ≤ (w.dueFiles t).length ∧
    (w'.duePastes t).length ≤ (w.duePastes t).length :=
  ⟨(nodup_dueFiles.subperm fun _ hcore => mem_dueFiles.2 (h.2 _ (mem_dueFiles.1 hcore))).length_le,
    (nodup_duePastes.subperm fun _ hcore => mem_duePastes.2 (h.2 _ (mem_duePastes.1 hcore))).length_le⟩

theorem exists_guarded (w : World) {item : Item} (h : w.Has item) : ∃ guards, w.Guarded guards item := by
  cases item with
  | file core =>
    obtain ⟨row, -, rfl⟩ := h
    exact ⟨_, guarded_fileOf w row⟩
  | paste core =>
    obtain ⟨row, hrow, rfl⟩ := h
    exact ⟨_, guarded_paste hrow⟩

/-- Nothing that is there comes to expire. -/
theorem exec_later (h : exec mayFail w op r w') (hnew : ∀ item, op.newItem r = some item → ¬ w'.DueBy t item) :
    Later t w w' := by
  refine ⟨exec_now h, fun item hdue => ?_⟩
  have hold : op.newItem r ≠ some item := fun heq => hnew item heq hdue
  obtain ⟨hitem, guards, hguards, hexpires⟩ := hdue
  have hbefore : w.Has item := exec_has_of_new h hold hitem
  obtain ⟨guards', hguards'⟩ := exists_guarded w hbefore
  obtain rfl : guards' = guards := (exec_guarded h hold hguards').unique hguards hitem
  exact ⟨hbefore, guards', hguards', hexpires⟩

theorem others_later (h : Relation.ReflTransGen (Other t) w w') : Later t w w' := by
  induction h with
  | refl => exact .refl
  | tail _ hother ih =>
    obtain ⟨op, r, hexec, hnew⟩ := hother
    exact ih.trans (exec_later hexec hnew)

theorem amid_later (h : amid mayFail t w op r w') (hop : op.InsertsNone) : Later t w w' := by
  obtain ⟨v, hexec, hothers⟩ := h
  refine (exec_later hexec fun item hnew => ?_).trans (others_later hothers)
  rw [newItem_of_insertsNone hop] at hnew
  cases hnew

/-- Whoever inserts no row leaves the others at most what there was. -/
theorem only_later {α : Type} {p : Query α} {a : α} (hp : Query.Only [.files, .pastes] p)
    (h : p.Runs (amid mayFail t) w a w') : Later t w w' := by
  have hstep : ∀ {v : World} {op : Op} {r : op.Res} {v' : World}, Later t w v → Within [.files, .pastes] op →
      amid mayFail t v op r v' → Later t w v' := by
    intro v op r v' hlater hwithin hstep
    refine hlater.trans (amid_later hstep ⟨fun harea => ?_, fun harea => ?_⟩)
    · exact absurd (hwithin _ harea) (by decide)
    · exact absurd (hwithin _ harea) (by decide)
  obtain ⟨_, hlater, -⟩ := Prog.Obeys.runs (fun _ v => Later t w v)
    (fun hlater hwithin h => ⟨(), trivial, hstep hlater hwithin h⟩) hp .refl h
  exact hlater

end Later

/-! ## One sweep -/

/-- What a sweep selects works, and so do its own `DELETE`s. -/
structure SweepWorks (mayFail : Op → Prop) : Prop where
  expiredFiles : ∀ limit, ¬ mayFail (.expiredFiles limit)
  expiredPastes : ∀ limit, ¬ mayFail (.expiredPastes limit)
  deleteFile : ∀ core, ¬ mayFail (.storage (.deleteFile core))
  deletePaste : ∀ core, ¬ mayFail (.deletePaste core)

section Sweep

variable {mayFail : Op → Prop} {t : ℤ} {w w' : World}

/-- What is removed is not there. -/
theorem gone_deleteFile {core : Core} {r : (Op.storage (.deleteFile core)).Res} (hworks : SweepWorks mayFail)
    (h : exec mayFail w (.storage (.deleteFile core)) r w') : ¬ w'.Has (.file core) := by
  have heq := h.resolve_right fun hfails => hworks.deleteFile core hfails.1
  simp only [answer, Dedupe.answer] at heq
  rintro ⟨row, hrow, hcore⟩
  split at heq
  · rename_i hnone
    cases heq
    exact absurd hcore (by simpa using List.find?_eq_none.1 hnone row hrow)
  · cases heq
    exact absurd hcore (by simpa using (mem_deleteWhere.1 hrow).2)

theorem gone_deletePaste {core : Core} {r : (Op.deletePaste core.val).Res} (hworks : SweepWorks mayFail)
    (h : exec mayFail w (.deletePaste core.val) r w') : ¬ w'.Has (.paste core) := by
  have heq := h.resolve_right fun hfails => hworks.deletePaste core.val hfails.1
  cases heq
  rintro ⟨paste, hpaste, rfl⟩
  have hother : decide (paste.idCore.val = paste.idCore.val) = false := (Keyed.mem_delete.1 hpaste).2
  exact absurd rfl (of_decide_eq_false hother)

/-- **A removal removes**, whatever fails after its `DELETE`. -/
theorem removeFile_gone {core : Core} {r : Except Dedupe.AppError Bool} (hworks : SweepWorks mayFail)
    (h : (storage (Dedupe.removeFile core)).Runs (amid mayFail t) w r w') :
    Later t w w' ∧ ¬ w'.DueBy t (.file core) := by
  have honly : Query.Only [.files, .pastes] (storage (Dedupe.removeFile core)) :=
    only_storage (.removeFile core) List.mem_cons_self
  obtain ⟨r₁, v, ⟨u, hexec, hothers⟩, hrest⟩ := h
  have hgone : ¬ u.Has (.file core) := gone_deleteFile hworks hexec
  have hfirst : Later t w u := exec_later hexec fun item hnew => by cases hnew
  have hlast : Later t u w' := (others_later hothers).trans (only_later (honly.2 r₁ () trivial) hrest)
  exact ⟨hfirst.trans hlast, fun hdue => hgone (hlast.2 _ hdue).1⟩

theorem sweepFiles_gone {files : List File} (hworks : SweepWorks mayFail)
    (h : (sweepFiles files).Runs (amid mayFail t) w () w') :
    Later t w w' ∧ ∀ file ∈ files, ¬ w'.DueBy t (.file file.idCore) := by
  induction files generalizing w with
  | nil =>
    obtain ⟨-, rfl⟩ := h
    exact ⟨.refl, fun _ hfile => absurd hfile List.not_mem_nil⟩
  | cons file files ih =>
    obtain ⟨r, v, hremove, hrest⟩ := Prog.runs_bind.1 h
    obtain ⟨hlater, hgone⟩ := removeFile_gone hworks hremove
    obtain ⟨hlater', hgone'⟩ := ih hrest
    refine ⟨hlater.trans hlater', fun other hother => ?_⟩
    rcases List.mem_cons.1 hother with rfl | hother
    · exact fun hdue => hgone (hlater'.2 _ hdue)
    · exact hgone' other hother

theorem sweepPastes_gone {pastes : List PasteRow} (hworks : SweepWorks mayFail)
    (h : (sweepPastes pastes).Runs (amid mayFail t) w () w') :
    Later t w w' ∧ ∀ paste ∈ pastes, ¬ w'.DueBy t (.paste paste.idCore) := by
  induction pastes generalizing w with
  | nil =>
    obtain ⟨-, rfl⟩ := h
    exact ⟨.refl, fun _ hpaste => absurd hpaste List.not_mem_nil⟩
  | cons paste pastes ih =>
    obtain ⟨r, v, ⟨r₁, v₁, hdelete, -, rfl⟩, hrest⟩ := Prog.runs_bind.1 h
    obtain ⟨u, hexec, hothers⟩ := hdelete
    have hgone : ¬ u.Has (.paste paste.idCore) := gone_deletePaste hworks hexec
    have hfirst : Later t w u := exec_later hexec fun item hnew => by cases hnew
    obtain ⟨hlater', hgone'⟩ := ih hrest
    have hlast : Later t u w' := (others_later hothers).trans hlater'
    refine ⟨hfirst.trans hlast, fun other hother => ?_⟩
    rcases List.mem_cons.1 hother with rfl | hother
    · exact fun hdue => hgone (hlast.2 _ hdue).1
    · exact hgone' other hother

end Sweep

/-! ## Who waits comes closer -/

/-- **What is left of the rows that expire by `t`**, when the first 500 of those that have expired are gone. -/
theorem length_due {α : Type} [DecidableEq α] {rows : List α} (expiresAt : α → Option ℤ) (core : α → Core) {t now : ℤ}
    {left : List Core} (hrows : rows.Nodup) (ht : t < now) (hleft : left.Nodup)
    (hfrom : ∀ c ∈ left, ∃ x ∈ rows, core x = c ∧ expiresBy t (expiresAt x) = true ∧
      x ∉ oldest (fun x => (expiresAt x).getD 0) 500 (rows.filter fun x => expired (expiresAt x) now)) :
    left.length ≤ (rows.filter fun x => expiresBy t (expiresAt x)).length - 500 := by
  -- what expires by `t` has expired
  have hdue : (rows.filter fun x => expiresBy t (expiresAt x)) =
      (rows.filter fun x => expired (expiresAt x) now).filter fun x => (expiresAt x).getD 0 ≤ t := by
    rw [List.filter_filter]
    refine List.filter_congr fun x _ => ?_
    unfold expiresBy expired
    cases expiresAt x with
    | none => simp
    | some e =>
      simp only [Option.any_some, Option.getD_some]
      by_cases he : e ≤ t
      · simp [he, he.trans_lt ht]
      · simp [he]
  have hlength := @length_left α (fun x => (expiresAt x).getD 0) 500 _ _
    (hrows.filter fun x => expired (expiresAt x) now) t
  rw [hdue]
  refine le_trans ?_ hlength
  rw [← List.length_map (f := core)]
  refine (hleft.subperm fun c hc => ?_).length_le
  obtain ⟨x, hx, rfl, hexpires, hnot⟩ := hfrom c hc
  have hmem : x ∈ rows.filter fun x => expiresBy t (expiresAt x) := List.mem_filter.2 ⟨hx, hexpires⟩
  rw [hdue] at hmem
  exact List.mem_map_of_mem (List.mem_filter.2 ⟨hmem, decide_eq_true hnot⟩)

section Sweeps

variable {mayFail : Op → Prop} {t : ℤ} {w w' : World}

/-- **A sweep takes 500 of the files and 500 of the pastes that expire by `t`**, or all of them. -/
theorem sweep_takes (hworks : SweepWorks mayFail) (ht : t < w.now) (h : sweep.Runs (amid mayFail t) w () w') :
    Later t w w' ∧ (w'.dueFiles t).length ≤ (w.dueFiles t).length - 500 ∧
      (w'.duePastes t).length ≤ (w.duePastes t).length - 500 := by
  obtain ⟨r, v, ⟨_, _, ⟨u, hfiles, hothers⟩, rfl, rfl⟩, h⟩ := Prog.runs_bind.1 h
  obtain ⟨_, v', hsweepFiles, h⟩ := Prog.runs_bind.1 h
  obtain ⟨r', v'', ⟨_, _, ⟨u', hpastes, hothers'⟩, rfl, rfl⟩, hsweepPastes⟩ := Prog.runs_bind.1 h
  have hfiles' := hfiles.resolve_right fun hfails => hworks.expiredFiles 500 hfails.1
  have hpastes' := hpastes.resolve_right fun hfails => hworks.expiredPastes 500 hfails.1
  cases hfiles'
  cases hpastes'
  obtain ⟨hlater, hgone⟩ := sweepFiles_gone hworks hsweepFiles
  obtain ⟨hlater', hgone'⟩ := sweepPastes_gone hworks hsweepPastes
  have hread : Later t w v' := (others_later hothers).trans hlater
  have hend : Later t v' w' := (others_later hothers').trans hlater'
  refine ⟨hread.trans hend, ?_, ?_⟩
  · have hcount : (w.dueFiles t).length =
        ((w.dedupe.files.rows.map w.fileOf).filter fun file => expiresBy t file.expiresAt).length := List.length_map _
    rw [hcount]
    refine length_due (fun file : File => file.expiresAt) (fun file => file.idCore) (nodup_allFiles w) ht
      nodup_dueFiles fun core hcore => ?_
    have hdue : w'.DueBy t (.file core) := mem_dueFiles.1 hcore
    obtain ⟨⟨row, hrow, rfl⟩, guards, hguards, hexpires⟩ := (hread.trans hend).2 _ hdue
    refine ⟨w.fileOf row, List.mem_map_of_mem hrow, rfl, ?_, fun hbatch => hgone _ hbatch (hend.2 _ hdue)⟩
    rwa [← hguards row hrow rfl] at hexpires
  · have hbefore : (v'.duePastes t).length ≤ (w.duePastes t).length := (length_of_later hread).2
    have hcount : (v'.duePastes t).length = (v'.pastes.rows.filter fun paste => expiresBy t paste.expiresAt).length :=
      List.length_map _
    refine le_trans ?_ (Nat.sub_le_sub_right hbefore 500)
    rw [hcount]
    refine length_due PasteRow.expiresAt PasteRow.idCore v'.pastes.unique.of_map (ht.trans_le hread.1)
      nodup_duePastes fun core hcore => ?_
    have hdue : w'.DueBy t (.paste core) := mem_duePastes.1 hcore
    obtain ⟨⟨paste, hpaste, rfl⟩, guards, hguards, hexpires⟩ := hend.2 _ hdue
    refine ⟨paste, hpaste, rfl, ?_, fun hbatch => hgone' _ hbatch hdue⟩
    rwa [← hguards paste hpaste rfl] at hexpires

/-- A run of the server with `n` sweeps; before, between and in the sweeps the others go on. -/
inductive Sweeps (mayFail : Op → Prop) (t : ℤ) : ℕ → World → World → Prop
  | start (w : World) : Sweeps mayFail t 0 w w
  | sweep {n : ℕ} {w v v' : World} : Sweeps mayFail t n w v → sweep.Runs (amid mayFail t) v () v' →
      Sweeps mayFail t (n + 1) w v'
  | other {n : ℕ} {w v v' : World} : Sweeps mayFail t n w v → Other t v v' → Sweeps mayFail t n w v'

/-- **No item waits for longer than the items before it take.**  However other requests interleave with the sweeps,
and whatever fails but the sweeper's own selections and `DELETE`s: after `n` sweeps 500 `n` of the files and of the
pastes that expired by `t` at the start are gone, or all of them. -/
theorem sweeps_keep_up {n : ℕ} (hworks : SweepWorks mayFail) (ht : t < w.now) (h : Sweeps mayFail t n w w') :
    (w'.dueFiles t).length ≤ (w.dueFiles t).length - 500 * n ∧
      (w'.duePastes t).length ≤ (w.duePastes t).length - 500 * n := by
  have hboth : Later t w w' ∧ (w'.dueFiles t).length ≤ (w.dueFiles t).length - 500 * n ∧
      (w'.duePastes t).length ≤ (w.duePastes t).length - 500 * n := by
    induction h with
    | start => exact ⟨.refl, le_rfl, le_rfl⟩
    | @sweep n _ _ _ _ hsweep ih =>
      have hnext : ∀ {a b c : ℕ}, a ≤ b - 500 → b ≤ c - 500 * n → a ≤ c - 500 * (n + 1) := by
        intro a b c
        omega
      obtain ⟨hlater, hfiles, hpastes⟩ := ih ht
      obtain ⟨hlater', hfiles', hpastes'⟩ := sweep_takes hworks (ht.trans_le hlater.1) hsweep
      exact ⟨hlater.trans hlater', hnext hfiles' hfiles, hnext hpastes' hpastes⟩
    | other _ hother ih =>
      obtain ⟨hlater, hfiles, hpastes⟩ := ih ht
      have hlater' := others_later (.single hother)
      obtain ⟨hfiles', hpastes'⟩ := length_of_later hlater'
      exact ⟨hlater.trans hlater', hfiles'.trans hfiles, hpastes'.trans hpastes⟩
  exact hboth.2

end Sweeps

/-- A paste that has expired. -/
def overdue : World where
  __ := World.empty
  pastes := ⟨[publicPaste coreA (some 3)], List.nodup_singleton _⟩
  now := 5

/-- The server after a second and a sweep. -/
def overdueSwept : World := (Prog.eval answer sweep { overdue with now := 6 }).2

theorem sweeps_keep_up_overdue : overdue.duePastes 3 = [coreA] ∧
    (overdueSwept.dueFiles 3).length ≤ (overdue.dueFiles 3).length - 500 * 1 ∧
      (overdueSwept.duePastes 3).length ≤ (overdue.duePastes 3).length - 500 * 1 := by
  have htick : Other 3 overdue { overdue with now := 6 } := ⟨.tick 1, .ok (), .inl rfl, nofun⟩
  have hsweep : sweep.Runs (amid (fun _ => False) 3) { overdue with now := 6 } () overdueSwept :=
    Prog.runs_eval (fun w op => ⟨_, exec_answer _ w op, .refl⟩) sweep _
  have hworks : SweepWorks fun _ => False := ⟨fun _ => id, fun _ => id, fun _ => id, fun _ => id⟩
  exact ⟨by decide, sweeps_keep_up hworks (by decide) (.sweep (.other (.start overdue) htick) hsweep)⟩

end Server
end Uwuubox
