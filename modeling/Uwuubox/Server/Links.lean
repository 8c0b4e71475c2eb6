import Uwuubox.Server.ScopeMap

/-!
# Issued links

`src/ids.rs` draws a core for each file and each paste; the response of an upload links to it,
with the extension of the file.  A handler that gets the link strips the extension and refuses the
words that the router has routes for.

* `generateCore` — a letter for each random byte.
* `isReserved_core` — one reserved word can be drawn.
* `LinksTo`, `LinksToPaste` — what a response of an upload links to.
* `FileResolves`, `PasteResolves` — the link leads to the row, in every state that has it.
* `links_resolve` — **it does, of every file and every paste, if and only if its core is not
  that word.**
* `register_drawn` — bytes that draw it.
-/

namespace Uwuubox
namespace Server

open Dedupe Storage Table Fallible

/-! ## Cores -/

theorem toNat_and_31_lt (b : UInt8) : (b &&& 31).toNat < alphabet.length := by
  rw [UInt8.toNat_and]
  exact Nat.lt_succ_of_le Nat.and_le_right

/-- The letter that `generate_core` takes for a byte. -/
def letter (b : UInt8) : Char := alphabet.get ⟨(b &&& 31).toNat, toNat_and_31_lt b⟩

/-- `generate_core`, with the bytes it draws. -/
def generateCore (buf : Vector UInt8 idLen) : Core :=
  ⟨buf.toList.map letter, by simp, by
    intro c hc
    obtain ⟨b, -, rfl⟩ := List.mem_map.1 hc
    exact List.get_mem _ _⟩

/-- `register`, which the router has a route for. -/
def registerWord : Text := ['r', 'e', 'g', 'i', 's', 't', 'e', 'r']

/-- **One reserved word can be drawn.**  The others are of other lengths. -/
theorem isReserved_core (core : Core) : isReserved core.val = true ↔ core.val = registerWord := by
  constructor
  · intro h
    have hword := of_decide_eq_true h
    have hlen : core.val.length = 8 := core.property.1
    have hall : ∀ word ∈ reserved, word.length = 8 → word = registerWord := by decide
    exact hall _ hword hlen
  · intro h
    rw [h]
    rfl

theorem core_ne_nil (core : Core) : core.val ≠ [] := by
  intro h
  have hlen : core.val.length = 8 := core.property.1
  rw [h] at hlen
  cases hlen

theorem dot_not_mem_core (core : Core) : '.' ∉ core.val := by
  intro hmem
  exact absurd (core.property.2 _ hmem) (by decide)

/-- **The extension is stripped.** -/
theorem stripToCore_append (core : Core) (ext : Ext) : stripToCore (core.val ++ ext.val) = core.val := by
  have hcore : ∀ c ∈ core.val, decide (c ≠ '.') = true := by
    intro c hc
    rw [decide_eq_true_eq]
    rintro rfl
    exact dot_not_mem_core core hc
  unfold stripToCore
  rw [List.takeWhile_append_of_pos hcore]
  obtain ⟨cs, hext⟩ := ext
  cases cs with
  | nil => simp
  | cons dot tail =>
    simp only [isExt, Bool.and_eq_true, beq_iff_eq] at hext
    simp [hext.1.1.1]

theorem stripToCore_core (core : Core) : stripToCore core.val = core.val := by
  have h := stripToCore_append core ⟨[], rfl⟩
  rwa [List.append_nil] at h

/-- A segment of a core passes the guard, unless it is the reserved word. -/
theorem guard_core (core : Core) :
    (core.val.isEmpty || isReserved core.val) = true ↔ core.val = registerWord := by
  rw [Bool.or_eq_true, isReserved_core, List.isEmpty_iff]
  exact or_iff_right (core_ne_nil core)

/-! ## Loading -/

/-- The row of the file is there and has not expired. -/
structure World.LiveFile (w : World) (file : File) : Prop where
  row : file.toFileRow ∈ w.dedupe.files.rows
  columns : w.fileColumns file.idCore = file.toFileColumns
  live : expired file.expiresAt w.now = false

/-- The row of the paste is there and has not expired. -/
structure World.LivePaste (w : World) (paste : PasteRow) : Prop where
  row : paste ∈ w.pastes
  live : expired paste.expiresAt w.now = false

section Load

variable {w : World} {mayFail : Op → Prop} {segment : Text}

theorem World.LiveFile.file? {file : File} (h : w.LiveFile file) :
    w.file? file.idCore.val = some file := by
  cases hfound : w.file? file.idCore.val with
  | none =>
    have hnone : w.fileRow? file.idCore.val = none := Option.map_eq_none_iff.1 hfound
    have hother := List.find?_eq_none.1 hnone _ h.row
    simp at hother
  | some found =>
    obtain ⟨row, hmem, -, hcore, rfl⟩ := file?_eq_some hfound
    obtain rfl := w.dedupe.files.uniqueCore.eq hmem h.row (Subtype.ext hcore)
    unfold World.fileOf
    rw [h.columns]

theorem World.LivePaste.paste? {paste : PasteRow} (h : w.LivePaste paste) :
    w.paste? paste.idCore.val = some paste := by
  cases hfound : w.paste? paste.idCore.val with
  | none =>
    have hother := List.find?_eq_none.1 hfound _ h.row
    simp at hother
  | some found =>
    have hmem : found ∈ w.pastes := List.mem_of_find?_eq_some hfound
    have hcore : found.idCore.val = paste.idCore.val := by simpa using List.find?_some hfound
    rw [Keyed.eq_of_col hmem h.row (Subtype.ext hcore)]

/-- A live file is loaded; only a failing statement prevents it. -/
theorem triple_loadLiveFile {file : File} (h : w.LiveFile file)
    (hcore : stripToCore segment = file.idCore.val) (hword : file.idCore.val ≠ registerWord) :
    Triple mayFail w (loadLiveFile segment) (fun found w' => found = file ∧ w' = w)
      fun _ _ => ∃ op, mayFail op := by
  have hguard : ¬ ((stripToCore segment).isEmpty || isReserved (stripToCore segment)) = true := by
    rw [hcore]
    exact (guard_core file.idCore).not.2 hword
  refine (obeys_bind _ _).2 (obeys_reject.2 ⟨fun hc => absurd hc hguard, fun _ => ?_⟩)
  refine (obeys_bind _ _).2 (triple_ask rfl (fun found hfound => ?_) (fun e he => nomatch he)
    fun hmay e => ⟨_, hmay⟩)
  have hfound : w.file? (stripToCore segment) = found := Except.ok.inj hfound
  rw [hcore, h.file?] at hfound
  subst hfound
  refine (obeys_bind _ _).2 (obeys_orThrow.2 ⟨nofun, fun found hsome => ?_⟩)
  cases hsome
  refine (obeys_bind _ _).2 (triple_ask rfl (fun now hnow => ?_) (fun e he => nomatch he)
    fun hmay e => ⟨_, hmay⟩)
  obtain rfl : w.now = now := Except.ok.inj hnow
  refine (obeys_bind _ _).2 (obeys_reject.2 ⟨fun hexpired => ?_, fun _ => ⟨rfl, rfl⟩⟩)
  rw [h.live] at hexpired
  cases hexpired

theorem triple_loadLivePaste {paste : PasteRow} (h : w.LivePaste paste)
    (hcore : stripToCore segment = paste.idCore.val) (hword : paste.idCore.val ≠ registerWord) :
    Triple mayFail w (loadLivePaste segment) (fun found w' => found = paste ∧ w' = w)
      fun _ _ => ∃ op, mayFail op := by
  have hguard : ¬ ((stripToCore segment).isEmpty || isReserved (stripToCore segment)) = true := by
    rw [hcore]
    exact (guard_core paste.idCore).not.2 hword
  refine (obeys_bind _ _).2 (obeys_reject.2 ⟨fun hc => absurd hc hguard, fun _ => ?_⟩)
  refine (obeys_bind _ _).2 (triple_ask rfl (fun found hfound => ?_) (fun e he => nomatch he)
    fun hmay e => ⟨_, hmay⟩)
  have hfound : w.paste? (stripToCore segment) = found := Except.ok.inj hfound
  rw [hcore, h.paste?] at hfound
  subst hfound
  refine (obeys_bind _ _).2 (obeys_orThrow.2 ⟨nofun, fun found hsome => ?_⟩)
  cases hsome
  refine (obeys_bind _ _).2 (triple_ask rfl (fun now hnow => ?_) (fun e he => nomatch he)
    fun hmay e => ⟨_, hmay⟩)
  obtain rfl : w.now = now := Except.ok.inj hnow
  refine (obeys_bind _ _).2 (obeys_reject.2 ⟨fun hexpired => ?_, fun _ => ⟨rfl, rfl⟩⟩)
  rw [h.live] at hexpired
  cases hexpired

/-- The reserved word leads nowhere. -/
theorem loadLiveFile_register (h : stripToCore segment = registerWord) :
    (loadLiveFile segment).run = .ret (.error AppError.notFound) := by
  unfold loadLiveFile
  simp only [h]
  rfl

theorem loadLivePaste_register (h : stripToCore segment = registerWord) :
    (loadLivePaste segment).run = .ret (.error AppError.notFound) := by
  unfold loadLivePaste
  simp only [h]
  rfl

end Load

/-- In every state that has the row of the file, the segment leads to it. -/
def FileResolves (core : Core) (segment : Text) : Prop :=
  ∀ (w : World) (file : File), w.LiveFile file → file.idCore = core →
    ((loadLiveFile segment).run.eval answer w).1 = .ok file

/-- In every state that has the paste, the segment leads to it. -/
def PasteResolves (core : Core) (segment : Text) : Prop :=
  ∀ (w : World) (paste : PasteRow), w.LivePaste paste → paste.idCore = core →
    ((loadLivePaste segment).run.eval answer w).1 = .ok paste

/-- A file with this core, on an instance without anything else. -/
def soleFile (core : Core) : File :=
  ⟨uploadRow sampleSha256 (sampleUpload core) core (fileKey core ⟨[], isExt_nil⟩) none,
    ⟨none, [], .unlisted, false, none, [], none, none⟩⟩

def soleFileWorld (core : Core) : World where
  __ := World.empty
  dedupe := { Dedupe.World.empty with files := FileTable.empty.insert (soleFile core).toFileRow nofun }

theorem liveFile_sole (core : Core) : (soleFileWorld core).LiveFile (soleFile core) :=
  ⟨List.mem_singleton_self _, rfl, rfl⟩

def solePaste (core : Core) : PasteRow :=
  ⟨core, none, none, ['h', 'i'], none, .code, .unlisted, false, none, none, none⟩

def solePasteWorld (core : Core) : World where
  __ := World.empty
  pastes := ⟨[solePaste core], List.nodup_singleton _⟩

theorem livePaste_sole (core : Core) : (solePasteWorld core).LivePaste (solePaste core) :=
  ⟨List.mem_singleton_self _, rfl⟩

theorem fileResolves_iff {core : Core} {segment : Text} (hcore : stripToCore segment = core.val) :
    FileResolves core segment ↔ core.val ≠ registerWord := by
  constructor
  · rintro h hword
    have hload := h _ _ (liveFile_sole core) rfl
    rw [loadLiveFile_register (hcore.trans hword)] at hload
    cases hload
  · rintro hword w file hlive rfl
    have hload : Triple (fun _ => False) w (loadLiveFile segment) (fun found w' => found = file ∧ w' = w)
      fun _ _ => ∃ _ : Op, False := triple_loadLiveFile hlive hcore hword
    apply Triple.eval at hload
    revert hload
    generalize (loadLiveFile segment).run.eval answer w = result
    obtain ⟨found | found, w'⟩ := result
    · rintro ⟨op, hop⟩
      exact hop.elim
    · rintro ⟨rfl, -⟩
      rfl

theorem pasteResolves_iff {core : Core} {segment : Text} (hcore : stripToCore segment = core.val) :
    PasteResolves core segment ↔ core.val ≠ registerWord := by
  constructor
  · rintro h hword
    have hload := h _ _ (livePaste_sole core) rfl
    rw [loadLivePaste_register (hcore.trans hword)] at hload
    cases hload
  · rintro hword w paste hlive rfl
    have hload : Triple (fun _ => False) w (loadLivePaste segment) (fun found w' => found = paste ∧ w' = w)
      fun _ _ => ∃ _ : Op, False := triple_loadLivePaste hlive hcore hword
    apply Triple.eval at hload
    revert hload
    generalize (loadLivePaste segment).run.eval answer w = result
    obtain ⟨found | found, w'⟩ := result
    · rintro ⟨op, hop⟩
      exact hop.elim
    · rintro ⟨rfl, -⟩
      rfl

/-! ## What a response links to -/

/-- The response to an upload links to this path segment. -/
def LinksTo (env : Env) (response : Response) (segment : Text) : Prop :=
  let previewUrl := env.baseUrl ++ ['/', 'f', '/'] ++ segment
  response = .seeOther previewUrl ∨ ∃ id expires token stripped, response = .json
    [("id_core", id), ("preview_url", .text previewUrl),
      ("raw_url", .text (env.baseUrl ++ ['/'] ++ segment)), ("expires_at", expires),
      ("delete_token", token), ("exif_stripped", stripped)]

/-- The response to a new paste links to this path segment. -/
def LinksToPaste (env : Env) (response : Response) (segment : Text) : Prop :=
  let previewUrl := env.baseUrl ++ ['/', 'p', '/'] ++ segment
  response = .seeOther previewUrl ∨ ∃ id expires token, response = .json
    [("id_core", id), ("preview_url", .text previewUrl),
      ("raw_url", .text (previewUrl ++ ['/', 'r', 'a', 'w'])), ("expires_at", expires),
      ("delete_token", token)]

/-- A file with this core and extension has been stored. -/
def Stored (w : World) (core : Core) (ext : Ext) : Prop :=
  ∃ row ∈ w.dedupe.files.rows, row.idCore = core ∧ row.ext = ext

/-- What the statements of an upload do, as far as its link is concerned. -/
def ShowsInsert (_ : World) : (op : DbOp) → op.Res → World → Prop
  | .insertFile row, .ok (), w' => row ∈ w'.dedupe.files.rows
  | _, _, _ => True

section Programs

variable {Γ α : Type} {next : Γ → (op : DbOp) → op.Res → Γ → Prop}

/-- A core that is claimed has been drawn. -/
theorem claimCore_mem (draws : List Core) (γ : Γ) :
    (claimCore draws).Obeys ⟨fun _ _ => True, next⟩
      (fun r _ => ∀ core, r = .ok (some core) → core ∈ draws) γ := by
  induction draws generalizing γ with
  | nil => exact nofun
  | cons candidate rest ih =>
    refine ⟨trivial, fun r γ' _ => ?_⟩
    match r with
    | .error e => exact nofun
    | .ok true =>
      intro core hcore
      cases hcore
      exact List.mem_cons_self
    | .ok false =>
      exact (ih γ').mono fun r _ hr core hcore => List.mem_cons_of_mem _ (hr core hcore)

theorem publish_stored (sha256 : Bytes → Digest) (u : Upload) (core : Core) (key : SafeKey) (w : World) :
    (publish sha256 u core key).Obeys ⟨fun _ _ => True, ShowsInsert⟩
      (fun r w' => ∀ core', r = .ok core' → core' = core ∧ Stored w' core u.ext) w := by
  refine (Prog.obeys_bind _ _ _).2 ((Prog.Obeys.trivially _).mono fun thumbKey w _ => ?_)
  refine ⟨trivial, fun r w' hr => ?_⟩
  match r with
  | .ok () =>
    intro core' hcore
    cases hcore
    exact ⟨rfl, _, hr, rfl, rfl⟩
  | .error e =>
    simp only [Prog.bind]
    refine (Prog.obeys_bind _ _ _).2 ((Prog.Obeys.trivially _).mono fun _ w' _ => ?_)
    cases thumbKey with
    | none => exact fun core' hcore => by cases hcore
    | some thumbKey =>
      refine (Prog.obeys_bind _ _ _).2 ((Prog.Obeys.trivially _).mono fun _ _ _ => ?_)
      exact fun core' hcore => by cases hcore

/-- **An upload answers with a drawn core, and has stored a row that has it.** -/
theorem uploadInner_stored (sha256 : Bytes → Digest) (u : Upload) (w : World) :
    (uploadInner sha256 u).Obeys ⟨fun _ _ => True, ShowsInsert⟩
      (fun r w' => ∀ core, r = .ok core → core ∈ List.ofFn u.draws ∧ Stored w' core u.ext) w := by
  refine (Prog.obeys_bind _ _ _).2 ((claimCore_mem _ w).mono fun claimed w hclaimed => ?_)
  match claimed with
  | .error e => exact nofun
  | .ok none => exact nofun
  | .ok (some core) =>
    have hcore : core ∈ List.ofFn u.draws := hclaimed core rfl
    have hpublish : ∀ key w, (publish sha256 u core key).Obeys ⟨fun _ _ => True, ShowsInsert⟩
        (fun r w' => ∀ core, r = .ok core → core ∈ List.ofFn u.draws ∧ Stored w' core u.ext) w := by
      intro key w
      refine (publish_stored sha256 u core key w).mono fun r w' hr core' hcore' => ?_
      obtain ⟨rfl, hstored⟩ := hr core' hcore'
      exact ⟨hcore, hstored⟩
    refine (Prog.obeys_bind _ _ _).2 ((Prog.Obeys.trivially _).mono fun acquired w _ => ?_)
    match acquired with
    | .error e => exact nofun
    | .ok (key, false) => exact hpublish key w
    | .ok (key, true) =>
      refine ⟨trivial, fun r w' _ => ?_⟩
      match r with
      | .ok () => exact hpublish key w'
      | .error e =>
        simp only [Prog.bind]
        refine (Prog.obeys_bind _ _ _).2 ((Prog.Obeys.trivially _).mono fun _ _ _ => ?_)
        exact fun core' hcore => by cases hcore

end Programs

/-- The row of a new paste has the core that it is given. -/
theorem ends_pasteColumns {Γ : Type} {next : Γ → (op : Op) → op.Res → Γ → Prop} (env : Env)
    (limits : EffectiveLimits) (allowNever : Bool) (user : Option User) (req : PasteRequest) :
    Ends next (fun row _ => ∀ core, (row core).idCore = core)
      (pasteColumns env limits allowNever user req) := by
  refine .skip fun input => .skip fun _ => .skip fun _ => .skip fun title => .skip fun format =>
    .skip fun visibility => .skip fun _ => .skip fun hash => .skip fun at' => ?_
  exact .pure fun w core => rfl

section Handlers

variable {env : Env} {mayFail : Op → Prop}

theorem ends_storeUpload (plan : UploadPlan) (req : UploadRequest) :
    Ends (exec mayFail) (fun core w' => (∃ i, req.draws i = core) ∧
      Stored w' core (normalizeExt env plan.filename)) (storeUpload env plan req) := by
  unfold storeUpload
  split
  · rename_i hlen
    refine .bind (P := fun stored w' => ∀ core, stored = .ok core →
        core ∈ List.ofFn req.draws ∧ Stored w' core (normalizeExt env plan.filename)) (fun w => ?_) ?_
    · refine Prog.Obeys.interp_fallible ?_ (uploadInner_stored env.sha256
        (plan.upload env ⟨plan.bytes, hlen⟩ req) w)
      intro w op _
      cases op with
      | insertFile row =>
        refine (obeys_bind _ _).2 (obeys_orThrow.2 ⟨fun _ => trivial, fun name _ => ?_⟩)
        refine ⟨trivial, fun r w' hexec => ?_⟩
        cases r with
        | ok u =>
          rcases exec_insertFile hexec with ⟨hcore, -, rfl⟩ | ⟨⟨e, he⟩, -⟩
          · exact List.mem_cons_self
          · cases he
        | error e => exact trivial
      | _ => exact ⟨trivial, fun r w' hexec => trivial⟩
    · intro stored w' hstored
      refine obeys_check.2 ⟨fun _ _ => trivial, fun core hcore => ?_⟩
      cases stored with
      | error e => cases hcore
      | ok core' =>
        cases hcore
        obtain ⟨hdrawn, hrow⟩ := hstored _ rfl
        exact ⟨List.mem_ofFn.1 hdrawn, hrow⟩
  · exact .skip fun _ => .throw

/-- A response to an upload links to what has been stored. -/
theorem ends_upload (caller : Caller) (req : UploadRequest) :
    Ends (exec mayFail) (fun response w' => ∃ i ext, Stored w' (req.draws i) ext ∧
      LinksTo env response ((req.draws i).val ++ ext.val)) (upload env caller req) := by
  refine .skip fun identity => .skip fun _ => .skip fun cfg => .skip fun _ => .skip fun _ =>
    .skip fun limits => .skip fun remaining => .skip fun form => .skip fun plan => ?_
  refine .bind (ends_storeUpload plan req) ?_
  rintro _ w' ⟨⟨i, rfl⟩, hstored⟩
  by_cases hhtml : wantsHtml caller.headers = true
  · simp only [hhtml]
    exact ⟨i, _, hstored, .inl rfl⟩
  · simp only [hhtml]
    exact ⟨i, _, hstored, .inr ⟨_, _, _, _, rfl⟩⟩

theorem ends_claimNewCore (draws : Fin 5 → Core) :
    Ends (exec mayFail) (fun core _ => ∃ i, draws i = core) (claimNewCore draws) := by
  refine .always (P := fun r => ∀ core, r = .ok (some core) → core ∈ List.ofFn draws) ?_ ?_
  · intro w
    exact obeys_storage (claimCore_mem _ w)
  · intro claimed hclaimed
    refine .check fun core? hcore? w => obeys_orThrow.2 ⟨fun _ => trivial, fun core hcore => ?_⟩
    cases claimed with
    | error e => cases hcore?
    | ok claimed =>
      cases hcore?
      exact List.mem_ofFn.1 (hclaimed core (congrArg Except.ok hcore))

/-- A response to a new paste links to it. -/
theorem ends_createPaste (caller : Caller) (req : PasteRequest) :
    Ends (exec mayFail) (fun response w' => ∃ i, (∃ paste ∈ w'.pastes, paste.idCore = req.draws i) ∧
      LinksToPaste env response (req.draws i).val) (createPaste env caller req) := by
  refine .skip fun identity => .skip fun _ => .skip fun cfg => .skip fun _ => .skip fun limits =>
    .step (ends_pasteColumns env limits _ _ req) fun row hrow => .step (ends_claimNewCore req.draws) ?_
  rintro _ ⟨i, rfl⟩
  refine .bind (P := fun _ w' => ∃ paste ∈ w'.pastes, paste.idCore = req.draws i) (fun w => ?_) ?_
  · refine obeys_ask.2 ⟨trivial, fun r w' hexec => ⟨?_, fun _ _ => trivial⟩⟩
    rintro _ rfl
    rcases exec_insertPaste hexec with ⟨pastes, hinsert, -, rfl⟩ | ⟨⟨e, he⟩, -⟩
    · exact ⟨_, (Keyed.mem_insert? hinsert).2 (.inl rfl), hrow _⟩
    · cases he
  · rintro _ w' hstored
    by_cases hhtml : wantsHtml caller.headers = true
    · simp only [hhtml]
      exact ⟨i, hstored, .inl rfl⟩
    · simp only [hhtml]
      exact ⟨i, hstored, .inr ⟨_, _, _, rfl⟩⟩

/-- **Issued links resolve.**  The response to an upload, whatever bytes are drawn for the core and
whatever the file is called, links to a core and an extension that it has stored, and the link leads
to the file for as long as it is there, if and only if the core is not the reserved word; and so it
is with pastes. -/
theorem links_resolve (env : Env) (mayFail : Op → Prop) (caller : Caller) (w w' : World)
    (response : Response) (bytes : Fin 5 → Vector UInt8 idLen) :
    (∀ req : UploadRequest, (upload env caller { req with draws := fun i => generateCore (bytes i) }).run.Runs
        (exec mayFail) w (.ok response) w' →
      ∃ i ext, Stored w' (generateCore (bytes i)) ext ∧
        LinksTo env response ((generateCore (bytes i)).val ++ ext.val) ∧
        (FileResolves (generateCore (bytes i)) ((generateCore (bytes i)).val ++ ext.val) ↔
          (generateCore (bytes i)).val ≠ registerWord)) ∧
    (∀ req : PasteRequest, (createPaste env caller { req with draws := fun i => generateCore (bytes i) }).run.Runs
        (exec mayFail) w (.ok response) w' →
      ∃ i, (∃ paste ∈ w'.pastes, paste.idCore = generateCore (bytes i)) ∧
        LinksToPaste env response (generateCore (bytes i)).val ∧
        (PasteResolves (generateCore (bytes i)) (generateCore (bytes i)).val ↔
          (generateCore (bytes i)).val ≠ registerWord)) := by
  constructor
  · intro req hrun
    obtain ⟨i, ext, hstored, hlinks⟩ := ends_runs (ends_upload caller _) hrun
    exact ⟨i, ext, hstored, hlinks, fileResolves_iff (stripToCore_append _ _)⟩
  · intro req hrun
    obtain ⟨i, hstored, hlinks⟩ := ends_runs (ends_createPaste caller _) hrun
    exact ⟨i, hstored, hlinks, pasteResolves_iff (stripToCore_core _)⟩

end Handlers

/-! ### Two uploads -/

/-- Somebody without an account. -/
def anonymous : Caller := ⟨0, .none⟩

/-- An upload of `a.Txt`, of one byte. -/
def oneByteUpload (bytes : Vector UInt8 idLen) : UploadRequest :=
  ⟨[.file (some ['a', '.', 'T', 'x', 't']) [7]], true, fun _ => generateCore bytes, none, [], []⟩

/-- The first letter, again and again. -/
def zeroBytes : Vector UInt8 idLen := Vector.replicate idLen 0

/-- The bytes that draw the reserved word; only their last five bits matter. -/
def registerBytes : Vector UInt8 idLen := #v[15, 36, 6, 8, 16, 17, 4, 255 - 16]

/-- The instance after the upload. -/
def afterUpload (bytes : Vector UInt8 idLen) : World :=
  ((upload .plain anonymous (oneByteUpload bytes)).run.eval answer World.empty).2

theorem links_resolve_zeroBytes : ∃ response, ∃ (_ : Fin 5) (ext : Ext),
    Stored (afterUpload zeroBytes) (generateCore zeroBytes) ext ∧
    LinksTo .plain response ((generateCore zeroBytes).val ++ ext.val) ∧
    (FileResolves (generateCore zeroBytes) ((generateCore zeroBytes).val ++ ext.val) ↔
      (generateCore zeroBytes).val ≠ registerWord) := by
  have hrun := Prog.runs_eval (exec_answer fun _ => False)
    (upload .plain anonymous (oneByteUpload zeroBytes)).run World.empty
  exact ⟨_, (links_resolve .plain (fun _ => False) anonymous World.empty _ _ fun _ => zeroBytes).1
    (oneByteUpload zeroBytes) hrun⟩

/-- `.txt` -/
def txtExt : Ext := ⟨['.', 't', 'x', 't'], rfl⟩

/-- The row that the upload has stored. -/
def uploadedRow (bytes : Vector UInt8 idLen) : FileRow :=
  ⟨generateCore bytes, txtExt, 1, textPlain, Env.plain.sha256 [7], fileKey (generateCore bytes) txtExt, none⟩

/-- The file is there, and its link is answered with `404`. -/
theorem register_drawn : ∃ file response,
    ((upload .plain anonymous (oneByteUpload registerBytes)).run.eval answer World.empty).1 = .ok response ∧
    LinksTo .plain response ((generateCore registerBytes).val ++ txtExt.val) ∧
    (afterUpload registerBytes).LiveFile file ∧ file.idCore = generateCore registerBytes ∧
    ((loadLiveFile ((generateCore registerBytes).val ++ txtExt.val)).run.eval answer
      (afterUpload registerBytes)).1 = .error AppError.notFound := by
  have hlive : (afterUpload registerBytes).LiveFile
      ((afterUpload registerBytes).fileOf (uploadedRow registerBytes)) := by
    refine ⟨?_, rfl, rfl⟩
    have hrows : (afterUpload registerBytes).dedupe.files.rows = [uploadedRow registerBytes] := rfl
    rw [hrows]
    exact List.mem_singleton_self _
  have hload : (loadLiveFile ((generateCore registerBytes).val ++ txtExt.val)).run =
      .ret (.error AppError.notFound) := by
    refine loadLiveFile_register ?_
    rw [stripToCore_append]
    decide
  refine ⟨_, _, rfl, .inr ⟨_, _, _, _, rfl⟩, hlive, rfl, ?_⟩
  rw [hload]
  rfl

end Server
end Uwuubox
