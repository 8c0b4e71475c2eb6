import Uwuubox.Server.Contents
import Uwuubox.Dedupe.Consistency

/-!
# Burn after reading, at most once

A row that is read once is guarded in every handler that touches contents, and decided by one
`DELETE`.

* `World.Burns` — the row of an item, if it is there, is read once.
* `Wins` — the answer by which a request learns that it has removed the row.
* `Traced` — what a handler returns, depending on whether its request has removed the row.
* `traced_serve` — only who has removed the row answers with its content.
* `delivered_once` — **of all requests at most one does, in every interleaving.**
-/

namespace Uwuubox
namespace Server

open Dedupe Storage Table Fallible

/-! ## The row -/

/-- There is a row of the item. -/
def World.Has (w : World) : Item → Prop
  | .file core => ∃ row ∈ w.dedupe.files.rows, row.idCore = core
  | .paste core => ∃ row ∈ w.pastes, row.idCore = core

/-- The row of the item, if there is one, is read once. -/
def World.Burns (w : World) : Item → Prop
  | .file core => ∀ row ∈ w.dedupe.files.rows, row.idCore = core →
    (w.fileColumns row.idCore).burnAfterRead = true
  | .paste core => ∀ row ∈ w.pastes, row.idCore = core → row.burnAfterRead = true

/-- The answer to the `DELETE` that has removed the row of the item. -/
def Wins (item : Item) : (op : Op) → op.Res → Bool
  | .storage (.deleteFile core), .ok (some _) => item = .file core
  | .deletePaste core, .ok true => match item with
    | .paste paste => paste.val = core
    | .file _ => false
  | _, _ => false

/-- If the answer shows the row of the item, it shows that it is read once. -/
def ShowsBurn (item : Item) : (op : Op) → op.Res → Prop
  | .findFile _, .ok (some file) => item = .file file.idCore → file.burnAfterRead = true
  | .findPaste _, .ok (some paste) => item = .paste paste.idCore → paste.burnAfterRead = true
  | _, _ => True

section Row

variable {mayFail : Op → Prop} {w w' : World} {op : Op} {r : op.Res} {item : Item}

/-- Nothing but the insertion of a row writes to its columns, except to `visibility`. -/
theorem exec_fileColumns (h : exec mayFail w op r w') (hop : op.area ≠ some .newFiles) (core : Core) :
    ∃ visibility, w'.fileColumns core = { w.fileColumns core with visibility := visibility } := by
  cases op with
  | insertFile => exact absurd rfl hop
  | setFileVisibility core' visibility =>
    rcases exec_setFileVisibility h with ⟨row, -, -, rfl⟩ | rfl
    · by_cases hcore : core = row.idCore
      · subst hcore
        exact ⟨visibility, by simp⟩
      · exact ⟨(w.fileColumns core).visibility, by simp [hcore]⟩
    · exact ⟨_, rfl⟩
  | storage op =>
    obtain ⟨dedupe, rfl, -⟩ := exec_storage h
    exact ⟨_, rfl⟩
  | _ =>
    obtain ⟨_, _, rfl⟩ := exec_frame h
    exact ⟨_, rfl⟩

/-- The rows of files after an operation are rows from before, as far as their cores go. -/
theorem exec_fileCores (h : exec mayFail w op r w') (hop : op.area ≠ some .newFiles) {row : FileRow}
    (hrow : row ∈ w'.dedupe.files.rows) : ∃ old ∈ w.dedupe.files.rows, old.idCore = row.idCore := by
  cases op with
  | insertFile => exact absurd rfl hop
  | storage op =>
    obtain ⟨dedupe, rfl, hdedupe⟩ := exec_storage h
    refine ⟨row, exec_files hdedupe ?_ hrow, rfl⟩
    cases op <;> first | rfl | exact absurd rfl hop
  | linkThumb core key =>
    rcases exec_statement h rfl with heq | ⟨-, -, rfl⟩
    · simp only [answer] at heq
      split at heq
      · cases heq
        rcases mem_updateWhere.1 hrow with ⟨hold, -⟩ | ⟨old, hold, -, rfl⟩
        · exact ⟨row, hold, rfl⟩
        · exact ⟨old, hold, rfl⟩
      · cases heq
        exact ⟨row, hrow, rfl⟩
    · exact ⟨row, hrow, rfl⟩
  | _ =>
    obtain ⟨_, _, rfl⟩ := exec_frame h
    exact ⟨row, hrow, rfl⟩

/-- The same of pastes: their rows differ from rows before in `visibility` only. -/
theorem exec_pasteRow (h : exec mayFail w op r w') (hop : op.area ≠ some .newPastes) {row : PasteRow}
    (hrow : row ∈ w'.pastes) :
    ∃ old ∈ w.pastes, ∃ visibility, row = { old with visibility := visibility } := by
  cases op with
  | insertPaste => exact absurd rfl hop
  | setPasteVisibility core visibility =>
    rcases exec_statement h rfl with heq | ⟨-, -, rfl⟩
    · cases heq
      rcases mem_updateWhere.1 (Keyed.mem_def.1 hrow) with ⟨hold, -⟩ | ⟨old, hold, -, rfl⟩
      · exact ⟨row, hold, _, rfl⟩
      · exact ⟨old, hold, _, rfl⟩
    · exact ⟨row, hrow, _, rfl⟩
  | deletePaste core =>
    rcases exec_statement h rfl with heq | ⟨-, -, rfl⟩
    · cases heq
      exact ⟨row, (Keyed.mem_delete.1 hrow).1, _, rfl⟩
    · exact ⟨row, hrow, _, rfl⟩
  | storage op =>
    obtain ⟨dedupe, rfl, -⟩ := exec_storage h
    exact ⟨row, hrow, _, rfl⟩
  | _ =>
    obtain ⟨_, _, rfl⟩ := exec_frame h
    exact ⟨row, hrow, _, rfl⟩

/-- The operations that insert no row. -/
def Op.InsertsNone (op : Op) : Prop := op.area ≠ some .newFiles ∧ op.area ≠ some .newPastes

theorem exec_has (h : exec mayFail w op r w') (hop : op.InsertsNone) (hw : w'.Has item) : w.Has item := by
  cases item with
  | file core =>
    obtain ⟨row, hrow, hcore⟩ := hw
    obtain ⟨old, hold, hsame⟩ := exec_fileCores h hop.1 hrow
    exact ⟨old, hold, hsame.trans hcore⟩
  | paste core =>
    obtain ⟨row, hrow, hcore⟩ := hw
    obtain ⟨old, hold, _, rfl⟩ := exec_pasteRow h hop.2 hrow
    exact ⟨old, hold, hcore⟩

theorem exec_burns (h : exec mayFail w op r w') (hop : op.InsertsNone) (hw : w.Burns item) :
    w'.Burns item := by
  cases item with
  | file core =>
    rintro row hrow rfl
    obtain ⟨old, hold, hsame⟩ := exec_fileCores h hop.1 hrow
    obtain ⟨_, hcolumns⟩ := exec_fileColumns h hop.1 row.idCore
    rw [hcolumns, ← hsame]
    exact hw old hold hsame
  | paste core =>
    rintro row hrow rfl
    obtain ⟨old, hold, _, rfl⟩ := exec_pasteRow h hop.2 hrow
    exact hw old hold rfl

/-- The row was there, and is not any more. -/
theorem exec_wins (h : exec mayFail w op r w') (hwins : Wins item op r = true) :
    w.Has item ∧ ¬ w'.Has item := by
  unfold Wins at hwins
  split at hwins
  · obtain rfl := of_decide_eq_true hwins
    obtain ⟨dedupe, rfl, hdedupe⟩ := exec_storage h
    rcases exec_deleteFile hdedupe with ⟨row, hrow, hcore, -, rfl⟩ | ⟨hno, -⟩
    · refine ⟨⟨row, hrow, hcore⟩, ?_⟩
      rintro ⟨other, hother, rfl⟩
      simpa using (mem_deleteWhere.1 hother).2
    · exact absurd rfl (hno _)
  · split at hwins
    · obtain rfl := of_decide_eq_true hwins
      rcases exec_statement h rfl with heq | ⟨-, ⟨e, herr⟩, -⟩
      · simp only [answer, Prod.mk.injEq, Except.ok.injEq] at heq
        obtain ⟨hsome, rfl⟩ := heq
        obtain ⟨row, hrow⟩ := Option.isSome_iff_exists.1 hsome.symm
        refine ⟨⟨row, List.mem_of_find?_eq_some hrow, ?_⟩, ?_⟩
        · exact Subtype.ext (by simpa using List.find?_some hrow)
        · rintro ⟨other, hother, rfl⟩
          simpa using (Keyed.mem_delete.1 hother).2
      · cases herr
    · cases hwins
  · cases hwins

theorem exec_showsBurn (h : exec mayFail w op r w') (hw : w.Burns item) : ShowsBurn item op r := by
  unfold ShowsBurn
  split
  · rename_i core file
    rintro rfl
    rcases exec_statement h rfl with heq | ⟨-, ⟨e, herr⟩, -⟩
    · obtain ⟨row, hrow, rfl⟩ := Option.map_eq_some_iff.1 (Except.ok.inj (congrArg Prod.fst heq)).symm
      exact hw row (List.mem_of_find?_eq_some hrow) rfl
    · cases herr
  · rename_i core paste
    rintro rfl
    rcases exec_statement h rfl with heq | ⟨-, ⟨e, herr⟩, -⟩
    · have hfind : w.paste? core = some paste := (Except.ok.inj (congrArg Prod.fst heq)).symm
      exact hw paste (List.mem_of_find?_eq_some hfind) rfl
    · cases herr
  · trivial

end Row

/-! ## What handlers answer -/

/-- The protocol that keeps account of whether the request has removed the row. -/
def burnProtocol (item : Item) : Protocol Bool Op Op.Res :=
  ⟨fun _ _ => True, fun won op r won' => ShowsBurn item op r ∧ won' = (won || Wins item op r)⟩

/-- Whatever it is answered, the handler returns with what `Q` accepts. -/
def Traced {α : Type} (item : Item) (Q : α → Bool → Prop) (p : Handler α) : Prop :=
  ∀ won, p.Obeys (burnProtocol item) Q (fun _ _ => True) won

/-- Content of the item is for who has removed the row. -/
def Paid (item : Item) (response : Response) (won : Bool) : Prop := response.Carries item → won = true

/-! ## Files and pastes -/

section Handlers

variable {item : Item} (env : Env) (caller : Caller)

/-- A response that has no content of the item. -/
theorem Paid.of_not {response : Response} (h : ¬ response.Carries item) (won : Bool) :
    Paid item response won := fun hcarries => absurd hcarries h

/-- What has no content of the item. -/
theorem Traced.blank {p : Handler Response}
    (h : Ends (burnProtocol item).next (fun response _ => ¬ response.Carries item) p) :
    Traced item (Paid item) p := h.mono fun _ won hresponse => Paid.of_not hresponse won

theorem showsGuards_burn (won : Bool) (op : Op) (r : op.Res) (won' : Bool)
    (h : (burnProtocol item).next won op r won') : ShowsGuards item (fun burn _ => burn = true) op r := by
  obtain ⟨hburn, -⟩ := h
  unfold ShowsGuards
  split
  · exact hburn
  · exact hburn
  · trivial

/-- Who is told that the row has been removed has removed it. -/
theorem traced_removeFile (core : Core) :
    Traced item (fun removed won => removed = true → item = .file core → won = true)
      (removeFile core) := by
  have hrest : ∀ {α : Type} (p : Dedupe.Handler α) {won : Bool}, (item = .file core → won = true) →
      p.Obeys ⟨fun _ _ => True, fun won op r won' => (burnProtocol item).next won (.storage op) r won'⟩
        (fun _ won => item = .file core → won = true) won := by
    intro α p won hwon
    refine Prog.Obeys.stays (P := fun won => item = .file core → won = true) ?_ p hwon
    rintro won op r _ ⟨-, rfl⟩ hwon heq
    rw [hwon heq, Bool.true_or]
  refine Ends.bind (P := fun removed won => removed = .ok true → item = .file core → won = true)
    (fun won => obeys_always.2 (obeys_storage ⟨trivial, fun r won' hnext => ?_⟩)) ?_
  · match r with
    | .error e => exact fun h => nomatch h
    | .ok none => exact fun h => nomatch h
    | .ok (some keys) =>
      refine (hrest _ ?_).mono fun _ _ hwon _ => hwon
      intro heq
      rw [hnext.2, show Wins item (.storage (.deleteFile core)) (.ok (some keys)) = true from
        decide_eq_true heq, Bool.or_true]
  · intro removed won hwon
    refine obeys_check.2 ⟨fun _ _ => trivial, fun a ha htrue => hwon ?_⟩
    subst htrue
    cases removed with
    | error e => cases ha
    | ok b =>
      cases ha
      rfl

theorem traced_burnRead (file : File) (outcome : RangeOutcome) :
    Traced item (Paid item) (burnRead file outcome) := by
  refine Ends.skip fun delivery => .skip fun all => .skip fun _ => .bind (traced_removeFile _) ?_
  intro removed won hwon
  refine (obeys_bind _ _).2 (obeys_reject.2 ⟨fun _ => trivial, fun hremoved => ?_⟩)
  refine obeys_check.2 ⟨fun _ _ => trivial, ?_⟩
  intro response hresponse hcarries
  exact hwon (by simpa using hremoved) (carries_response (carries_rawResponse hresponse hcarries))

theorem traced_raw (password : Option Text) (segment : Text) :
    Traced item (Paid item) (raw env caller password segment) := by
  refine Ends.step (ends_loadLiveFile showsGuards_burn segment) fun file hfile => .skip fun _ =>
    .skip fun header => .skip fun _ => .ite (fun hrange => ?_) fun _ => .ite (fun hburn => ?_) fun hburn => ?_
  · refine fun won => obeys_check.2 ⟨fun _ _ => trivial, fun response h => ?_⟩
    refine Paid.of_not (fun hcarries => ?_) won
    rw [hrange] at h
    exact not_carries_unsatisfiable (carries_rawResponse h hcarries)
  · exact traced_burnRead file _
  · exact (ends_streamRead file _).mono fun response won hof => Paid.of_not (fun hcarries =>
      hburn (hfile (hof hcarries))) won

theorem traced_preview (segment : Text) : Traced item (Paid item) (preview env caller segment) := by
  refine .blank (.skip fun _ => .step (ends_loadLiveFile showsGuards_burn segment) fun file hfile =>
    .skip fun _ => .skip fun _ => .skip fun unlocked =>
      .always (obeys_textSnippet env fun heq => .inl (hfile heq)) fun snippet hsnippet =>
        .skip fun _ => .pure fun _ => ?_)
  rintro ⟨bytes, hbytes⟩
  exact hsnippet bytes (by simpa [Response.html] using hbytes)

theorem traced_viewPaste (segment : Text) : Traced item (Paid item) (viewPaste env caller segment) := by
  refine .blank (.skip fun _ => .step (ends_loadLivePaste showsGuards_burn segment) fun paste hpaste =>
    .skip fun _ => .skip fun unlocked => .check fun content hcontent => .skip fun _ => .skip fun _ =>
      .pure fun _ => ?_)
  rintro ⟨bytes, hbytes⟩
  have hbytes : .content item bytes ∈ content := by simpa [Response.html] using hbytes
  obtain ⟨hitem, hshown⟩ := mem_pasteContent env hcontent hbytes
  simp [hpaste hitem] at hshown

theorem traced_rawPaste (password : Option Text) (segment : Text) :
    Traced item (Paid item) (rawPaste env caller password segment) := by
  refine Ends.step (ends_loadLivePaste showsGuards_burn segment) fun paste hpaste => .skip fun _ =>
    .skip fun header => .skip fun _ => .ite (fun hrange => ?_) fun _ => .ite (fun hburn => ?_) fun hburn => ?_
  · refine .pure (Paid.of_not fun hcarries => ?_)
    rw [hrange] at hcarries
    have hempty : (Range.response .unsatisfiable (utf8 paste.body).length (.paste paste.idCore) []).Carries
        item := hcarries
    exact not_carries_unsatisfiable hempty
  · intro won
    refine (obeys_bind _ _).2 (obeys_ask.2 ⟨trivial, fun r won' hnext => ⟨?_, fun _ _ => trivial⟩⟩)
    rintro deleted rfl
    refine (obeys_bind _ _).2 (obeys_reject.2 ⟨fun _ => trivial, fun hdeleted hcarries => ?_⟩)
    obtain rfl : item = .paste paste.idCore := carries_response hcarries
    obtain rfl : deleted = true := by simpa using hdeleted
    rw [hnext.2, show Wins (.paste paste.idCore) (.deletePaste paste.idCore.val) (.ok true) = true from
      decide_eq_true rfl, Bool.or_true]
  · refine .pure (Paid.of_not fun hcarries => ?_)
    exact hburn (hpaste (carries_response hcarries))

end Handlers

/-! ## All requests -/

/-- The requests that make no new file or paste. -/
def Request.insertsNone : Request → Bool
  | upload _ _ | createPaste _ _ => false
  | _ => true

/-- An answer without an error. -/
def PaidOutcome (item : Item) : Outcome → Bool → Prop
  | .ok response, won => Paid item response won
  | .error _, _ => True

section Serve

variable {item : Item} (env : Env)

theorem Traced.run {p : Handler Response} (h : Traced item (Paid item) p) (won : Bool) :
    p.run.Obeys (burnProtocol item) (PaidOutcome item) won := by
  refine Prog.Obeys.mono (h won) fun r won hr => ?_
  cases r with
  | ok response => exact hr
  | error e => trivial

/-- **Only who has removed the row answers with content of it.** -/
theorem traced_serve (req : Request) (won : Bool) :
    (serve env req).Obeys (burnProtocol item) (PaidOutcome item) won := by
  have hguarded : ∀ (burn : Bool) (hash : Option Text), burn = true → burn = true ∨ hash.isSome = true :=
    fun _ _ => .inl
  by_cases hreq : req.shows = true
  · cases req with
    | raw caller password segment => exact (traced_raw env caller password segment).run won
    | preview caller segment => exact (traced_preview env caller segment).run won
    | thumb segment => exact (Traced.blank (ends_thumb showsGuards_burn hguarded segment)).run won
    | rawPaste caller password segment => exact (traced_rawPaste env caller password segment).run won
    | viewPaste caller segment => exact (traced_viewPaste env caller segment).run won
    | zip caller files pastes =>
      exact (Traced.blank (ends_zip showsGuards_burn hguarded env caller files pastes)).run won
    | _ => cases hreq
  · refine Prog.Obeys.mono (blank_serve env item req (by simpa using hreq) won) ?_
    intro outcome won hblank
    match outcome with
    | .ok response => exact Paid.of_not (hblank response rfl) won
    | .error e => trivial

/-- These requests insert no row. -/
theorem serve_insertsNone (req : Request) (hreq : req.insertsNone = true) :
    (serve env req).Obeys (.flat Op.InsertsNone fun _ _ => True) (fun _ _ => True) () := by
  refine (serve_only env req).obeys (fun _ op hop => ?_) ()
  have hno : ∀ a ∈ req.areas, a ≠ .newFiles ∧ a ≠ .newPastes := by
    cases req with
    | upload | createPaste => cases hreq
    | _ => simp [Request.areas]
  exact ⟨fun h => (hno _ (hop _ h)).1 rfl, fun h => (hno _ (hop _ h)).2 rfl⟩

end Serve

/-! ## At most once -/

/-- The row is there and nobody has removed it, or at most one request has. -/
structure ReadOnce (item : Item) (w : World) (winners : ℕ) : Prop where
  burns : w.Burns item
  gone : winners ≠ 0 → ¬ w.Has item
  once : winners ≤ 1

theorem readOnce_exec {item : Item} {mayFail : Op → Prop} {w w' : World} {op : Op} {r : op.Res}
    {won : Bool} {others : ℕ} (hw : ReadOnce item w (won.toNat + others)) (hop : op.InsertsNone)
    (h : exec mayFail w op r w') :
    ∃ won', (burnProtocol item).next won op r won' ∧ ReadOnce item w' (won'.toNat + others) := by
  refine ⟨_, ⟨exec_showsBurn h hw.burns, rfl⟩, exec_burns h hop hw.burns, ?_, ?_⟩
  · intro hne
    cases hwins : Wins item op r with
    | true => exact (exec_wins h hwins).2
    | false =>
      rw [hwins, Bool.or_false] at hne
      exact fun hhas => hw.gone hne (exec_has h hop hhas)
  · cases hwins : Wins item op r with
    | true =>
      -- the row was there, so nobody had removed it
      have hnone : won.toNat + others = 0 := by
        by_contra hne
        exact hw.gone hne (exec_wins h hwins).1
      rw [Bool.or_true]
      simp only [Bool.toNat_true]
      omega
    | false =>
      rw [Bool.or_false]
      exact hw.once

/-- The request has been answered with content of the item. -/
def Delivered (item : Item) {ι : Type} (t : ι × Query Outcome) : Prop :=
  ∃ response, t.2 = .ret (.ok response) ∧ response.Carries item

/-- **Burn after reading, at most once.**  Whatever requests interleave, fail or stop, at most one
of them is answered with content of an item that is read once. -/
theorem delivered_once (env : Env) (mayFail : Op → Prop) (stop : Prop) {item : Item} {w₀ : World}
    (hburns : w₀.Burns item)
    {p : Pool World { req : Request // req.insertsNone = true } Op Op.Res Outcome}
    (hp : Pool.Reachable (fun req => serve env req.1) (exec mayFail) stop w₀ p) :
    p.threads.Pairwise fun t u => ¬ (Delivered item t ∧ Delivered item u) := by
  have hcode : ∀ req : { req : Request // req.insertsNone = true },
      (serve env req.1).Owns (ReadOnce item) (exec mayFail)
        (fun outcome winners => ∃ won : Bool, winners = won.toNat ∧ PaidOutcome item outcome won) 0 := by
    intro req
    have htraced : (serve env req.1).Obeys (burnProtocol item) (PaidOutcome item) false :=
      traced_serve env req.1 false
    refine ((serve_insertsNone env req.1 req.2).restrict htraced).owns ?_
    intro won op w r w' others hop hw h
    exact readOnce_exec hw hop h
  have hdrop : stop → ∀ w winners others, ReadOnce item w (winners + others) → ReadOnce item w others := by
    intro _ w winners others hw
    refine ⟨hw.burns, fun hne => hw.gone (by omega), ?_⟩
    have honce := hw.once
    omega
  obtain ⟨gs, hgs⟩ := Pool.ledger ⟨hburns, fun hne => absurd rfl hne, Nat.zero_le 1⟩ hcode hdrop hp
  refine hgs.pairwise hgs.2.once ?_
  rintro ⟨req, prog⟩ winners howns ⟨response, rfl, hcarries⟩
  obtain ⟨won, rfl, hpaid⟩ := howns
  obtain rfl : won = true := hpaid hcarries
  exact Nat.one_pos

/-- A file that is read once. -/
def burnColumns : FileColumns where
  ownerId := none
  originalName := uploadName
  visibility := .unlisted
  burnAfterRead := true
  accessPasswordHash := none
  scanStatus := []
  expiresAt := none
  deleteTokenHash := none

/-- An instance with one file, of one byte, that is read once. -/
def burnWorld : World where
  __ := World.empty
  dedupe := {
    usedIdCores := [coreA]
    objects := ⟨[⟨sampleSha256 [7], fileKey coreA ⟨[], isExt_nil⟩, 1, textPlain, 1⟩], List.nodup_singleton _,
      List.nodup_singleton _⟩
    files := ⟨[uploadRow sampleSha256 (sampleUpload coreA) coreA (fileKey coreA ⟨[], isExt_nil⟩) none],
      List.nodup_singleton _⟩
    store := Function.update (fun _ => none) (fileKey coreA ⟨[], isExt_nil⟩) (some [7]) }
  fileColumns := fun _ => burnColumns

/-- A raw read of the file. -/
def burnRequest : Request := .raw ⟨0, .none⟩ none coreA.val

/-- Two reads, the second of which has the content before the first deletes the row. -/
def burnRace : List (Pool.Turn { req : Request // req.insertsNone = true } Unit) :=
  [.spawn ⟨burnRequest, rfl⟩, .act 0 (), .act 0 (), .act 0 (),
    .spawn ⟨burnRequest, rfl⟩, .act 0 (), .act 0 (), .act 0 (),
    .act 1 (), .act 1 (), .act 1 (), .act 1 (), .act 0 ()]

def burnPool : Pool World { req : Request // req.insertsNone = true } Op Op.Res Outcome :=
  Pool.play (fun req => serve .plain req.1) (fun _ w op => answer w op) burnWorld burnRace

theorem burns_burnWorld : burnWorld.Burns (.file coreA) := fun _ _ _ => rfl

theorem delivered_once_burnRace :
    burnPool.threads.Pairwise fun t u =>
      ¬ (Delivered (.file coreA) t ∧ Delivered (.file coreA) u) :=
  delivered_once .plain (fun _ => False) False burns_burnWorld
    (@Pool.reachable_play _ _ _ _ _ (fun req : { req : Request // req.insertsNone = true } =>
        serve .plain req.1) _ False Unit (fun _ w op => answer w op) (fun _ _ => true)
      (fun _ w op _ => exec_answer _ w op) burnWorld burnRace (by rfl))

/-- One of the two has the content, the other finds nothing. -/
example : ∃ response, response.body = [.content (.file coreA) [7]] ∧
    burnPool.threads.map Prod.snd = [.ret (.error AppError.notFound), .ret (.ok response)] :=
  ⟨_, rfl, rfl⟩

end Server
end Uwuubox
