import Uwuubox.Server.Veils

/-!
# Who sees what has expired

Whether a row has expired is decided by `is_expired` in the handlers, by `expires_at > now()` in `public_feed`, and not
at all in `public_items`.

* `ExpiryAgrees` — the endpoints agree: all of them answer as if the row were not there, or as if it had no date.
* `World.rowsWhere_seen` — what the lists show.
* `Veils.answers` — what the endpoints answer, where the lists show the same.
* `expiry_agrees_iff` — **they agree** on all rows but those that are public and expire now, or have expired and have an
  owner.
-/

namespace Uwuubox
namespace Server

open Dedupe Storage Table Fallible

/-- **The endpoints agree** on whether a row has expired: if it has, they answer as if it were not there, and if it has
not, as if it never expired. -/
def ExpiryAgrees (env : Env) (humans : Humans) (site : Site) (item : Item) (expiresAt : Option ℤ) : Prop :=
  ∃ passed : Bool, (expired expiresAt site.server.now = true → passed = true) ∧
    (unexpired expiresAt site.server.now = true → passed = false) ∧
    ∀ endpoint a, site.Answers env humans endpoint a ↔
      { site with server := site.server.seen passed item }.Answers env humans endpoint a

/-! ## Lists in both -/

/-- The rows that a list selects from. -/
def World.rowsWhere (w : World) (keep : Posted → Bool) : Feed where
  files := (w.dedupe.files.rows.map w.fileOf).filter fun file => keep file.posted
  pastes := w.pastes.rows.filter fun paste => keep paste.posted

/-- The row of an item is among them. -/
def Feed.Lists (feed : Feed) : Item → Prop
  | .file core => ∃ file ∈ feed.files, file.idCore = core
  | .paste core => ∃ paste ∈ feed.pastes, paste.idCore = core

section

variable {passed : Bool} {item : Item} {t : ℤ} {w w' : World} {keep : Posted → Bool}

/-- A column of cores has no core twice, and so no text of one. -/
theorem uniqueOn_val {R : Type} {col : R → Core} {rows : List R} (h : UniqueOn col rows) :
    UniqueOn (fun r => (col r).val) rows := by
  have hmap := List.Nodup.map Subtype.val_injective h
  rwa [List.map_map] at hmap

theorem World.file?_of_mem {file : File} (h : file ∈ w.dedupe.files.rows.map w.fileOf) :
    w.file? file.idCore.val = some file := by
  obtain ⟨row, hrow, rfl⟩ := List.mem_map.1 h
  have hfind : w.fileRow? row.idCore.val = some row := (uniqueOn_val w.dedupe.files.uniqueCore).find? hrow rfl
  exact congrArg (Option.map w.fileOf) hfind

theorem World.paste?_of_mem {paste : PasteRow} (h : paste ∈ w.pastes.rows) :
    w.paste? paste.idCore.val = some paste :=
  (uniqueOn_val w.pastes.unique).find? h rfl

theorem World.lists_rowsWhere :
    (w.rowsWhere keep).Lists item ↔ ∃ posted, w.posted? item = some posted ∧ keep posted = true := by
  cases item with
  | file core =>
    constructor
    · rintro ⟨file, hfile, rfl⟩
      obtain ⟨hmem, hkeep⟩ := List.mem_filter.1 hfile
      exact ⟨file.posted, by simp [World.posted?, World.file?_of_mem hmem], hkeep⟩
    · rintro ⟨posted, hposted, hkeep⟩
      obtain ⟨file, hfile, rfl⟩ := Option.map_eq_some_iff.1 hposted
      obtain ⟨row, hrow, -, hcore, rfl⟩ := file?_eq_some hfile
      exact ⟨w.fileOf row, List.mem_filter.2 ⟨List.mem_map_of_mem hrow, hkeep⟩, Subtype.ext hcore⟩
  | paste core =>
    constructor
    · rintro ⟨paste, hpaste, rfl⟩
      obtain ⟨hmem, hkeep⟩ := List.mem_filter.1 hpaste
      exact ⟨paste.posted, by simp [World.posted?, World.paste?_of_mem hmem], hkeep⟩
    · rintro ⟨posted, hposted, hkeep⟩
      obtain ⟨paste, hpaste, rfl⟩ := Option.map_eq_some_iff.1 hposted
      have hmem : paste ∈ w.pastes.rows := List.mem_of_find?_eq_some hpaste
      exact ⟨paste, List.mem_filter.2 ⟨hmem, hkeep⟩, Subtype.ext (World.paste?_core hpaste)⟩

theorem posted?_without (w : World) (item : Item) : (w.without item).posted? item = none := by
  cases item with
  | file c => simp [World.posted?, World.file?_without]
  | paste c => simp [World.posted?, World.paste?_without]

theorem posted?_forever (w : World) (item : Item) :
    (w.forever item).posted? item = (w.posted? item).map fun posted => { posted with expiresAt := none } := by
  cases item with
  | file c =>
    simp only [World.posted?, World.file?_forever, if_true, Option.map_map]
    rfl
  | paste c =>
    simp only [World.posted?, World.paste?_forever, if_true, Option.map_map]
    rfl

/-- Rows that would not be kept are deleted. -/
theorem filter_deleteWhere {R : Type} {p keep : R → Bool} {rows : List R}
    (h : ∀ r ∈ rows, p r = true → keep r = false) : (deleteWhere p rows).filter keep = rows.filter keep := by
  unfold deleteWhere
  rw [List.filter_filter]
  refine List.filter_congr fun r hr => ?_
  cases hp : p r with
  | true => rw [h r hr hp]; rfl
  | false => simp

/-- Rows are changed, in something that is not looked at. -/
theorem map_filter_map {R S : Type} {keep : R → Bool} {f : R → R} {g : R → S} {rows : List R}
    (hkeep : ∀ r ∈ rows, keep (f r) = keep r) (hg : ∀ r, g (f r) = g r) :
    ((rows.map f).filter keep).map g = (rows.filter keep).map g := by
  have hfilter : rows.filter (keep ∘ f) = rows.filter keep := List.filter_congr hkeep
  rw [List.filter_map, List.map_map, hfilter]
  exact List.map_congr_left fun r _ => hg r

/-- **The lists show the same**, if they keep the row neither before it goes nor only without its date. -/
theorem World.rowsWhere_seen (hkeep : ∀ posted, w.posted? item = some posted →
      keep posted = if passed then false else keep { posted with expiresAt := none }) :
    ((w.seen passed item).rowsWhere keep).undated = (w.rowsWhere keep).undated := by
  cases item with
  | file c =>
    have hrow : ∀ row ∈ w.dedupe.files.rows, row.idCore = c → keep (w.fileOf row).posted =
        if passed then false else keep { (w.fileOf row).posted with expiresAt := none } := by
      rintro row hrow rfl
      exact hkeep _ (congrArg (Option.map File.posted) (World.file?_of_mem (List.mem_map_of_mem hrow)))
    have hfiles : (((w.seen passed (.file c)).rowsWhere keep).files).map File.undated =
        (w.rowsWhere keep).files.map File.undated := by
      cases passed with
      | true =>
        have hdelete : (w.without (.file c)).dedupe.files.rows =
            deleteWhere (fun row => row.idCore = c) w.dedupe.files.rows := rfl
        refine congrArg (List.map File.undated) ?_
        show ((w.without (.file c)).dedupe.files.rows.map w.fileOf).filter _ = _
        rw [hdelete, List.filter_map, filter_deleteWhere fun row hrow' heq => ?_]
        · exact List.filter_map.symm
        · exact hrow row hrow' (of_decide_eq_true heq)
      | false =>
        show ((w.dedupe.files.rows.map (w.forever (.file c)).fileOf).filter _).map _ = _
        have hfileOf : w.dedupe.files.rows.map (w.forever (.file c)).fileOf = (w.dedupe.files.rows.map w.fileOf).map
            fun file => if file.idCore = c then { file with expiresAt := none } else file := by
          rw [List.map_map]
          exact List.map_congr_left fun row _ => World.fileOf_forever w c row
        rw [hfileOf]
        refine map_filter_map (fun file hfile => ?_) fun file => ?_
        · obtain ⟨row, hmem, rfl⟩ := List.mem_map.1 hfile
          split
          · exact (hrow row hmem ‹_›).symm
          · rfl
        · split <;> rfl
    exact congrArg₂ Feed.mk hfiles (by cases passed <;> rfl)
  | paste c =>
    have hrow : ∀ paste ∈ w.pastes.rows, paste.idCore = c → keep paste.posted =
        if passed then false else keep { paste.posted with expiresAt := none } := by
      rintro paste hpaste rfl
      exact hkeep _ (congrArg (Option.map PasteRow.posted) (World.paste?_of_mem hpaste))
    have hpastes : (((w.seen passed (.paste c)).rowsWhere keep).pastes).map PasteRow.undated =
        (w.rowsWhere keep).pastes.map PasteRow.undated := by
      cases passed with
      | true =>
        refine congrArg (List.map PasteRow.undated) (filter_deleteWhere fun paste hpaste heq => ?_)
        exact hrow paste hpaste (of_decide_eq_true heq)
      | false =>
        refine map_filter_map (fun paste hpaste => ?_) fun paste => ?_
        · split
          · exact (hrow paste hpaste (of_decide_eq_true ‹_›)).symm
          · rfl
        · split <;> rfl
    exact congrArg₂ Feed.mk (by cases passed <;> rfl) hpastes

end

/-! ## Answers in both -/

/-- What is selected from rows of which only a part is shown. -/
theorem selects_map {α β : Type} {key : α → ℤ} {key' : β → ℤ} {f : α → β} (hf : ∀ a, key' (f a) = key a) (rows : List α)
    (limit offset : ℤ) (out : List β) :
    Selects key' (rows.map f) limit offset out ↔ ∃ out', Selects key rows limit offset out' ∧ out = out'.map f := by
  constructor
  · rintro ⟨ranked, ⟨hperm, hdescending⟩, rfl⟩
    have hcomp : Relation.Comp (· = List.map f ·) List.Perm ranked rows := by
      rw [List.eq_map_comp_perm]
      exact hperm
    obtain ⟨ranked', rfl, hperm'⟩ := hcomp
    have hdescending' : ranked'.Pairwise fun a b => key b ≤ key a :=
      (List.pairwise_map.1 hdescending).imp fun {a b} h => by rwa [hf, hf] at h
    exact ⟨_, ⟨ranked', ⟨hperm', hdescending'⟩, rfl⟩, by rw [List.map_take, List.map_drop]⟩
  · rintro ⟨out', ⟨ranked, hranked, rfl⟩, rfl⟩
    exact ⟨ranked.map f, hranked.map hf, by rw [List.map_take, List.map_drop]⟩

theorem publicFeed_undated {dates : Dates} {feed rows : Feed} {limit offset : ℤ} :
    PublicFeed dates feed.undated limit offset rows ↔
      ∃ rows', PublicFeed dates feed limit offset rows' ∧ rows = rows'.undated := by
  constructor
  · rintro ⟨hfiles, hpastes⟩
    obtain ⟨files, hfiles, hfilesOut⟩ := (selects_map (fun _ => rfl) feed.files limit offset _).1 hfiles
    obtain ⟨pastes, hpastes, hpastesOut⟩ := (selects_map (fun _ => rfl) feed.pastes limit offset _).1 hpastes
    exact ⟨⟨files, pastes⟩, ⟨hfiles, hpastes⟩, congrArg₂ Feed.mk hfilesOut hpastesOut⟩
  · rintro ⟨rows, ⟨hfiles, hpastes⟩, rfl⟩
    exact ⟨(selects_map (fun _ => rfl) feed.files limit offset _).2 ⟨_, hfiles, rfl⟩,
      (selects_map (fun _ => rfl) feed.pastes limit offset _).2 ⟨_, hpastes, rfl⟩⟩

/-- The same rows, but for their dates, are the same views. -/
theorem items_undated (humans : Humans) (dates : Dates) (rows : Feed) :
    rows.undated.items humans dates = rows.items humans dates := by
  unfold Feed.items Feed.undated
  rw [List.map_map, List.map_map]
  rfl

theorem explores_undated {env : Env} {humans : Humans} {dates : Dates} {feed : Feed} {query : Option ℤ}
    {served : ExplorePage} :
    Explores env humans dates feed.undated query served ↔ Explores env humans dates feed query served := by
  constructor
  · rintro ⟨undated, sorted, hundated, hsorted, hserved⟩
    obtain ⟨rows, hrows, rfl⟩ := publicFeed_undated.1 hundated
    rw [items_undated] at hsorted
    exact ⟨rows, sorted, hrows, hsorted, hserved⟩
  · rintro ⟨rows, sorted, hrows, hsorted, hserved⟩
    rw [← items_undated] at hsorted
    exact ⟨rows.undated, sorted, publicFeed_undated.2 ⟨rows, hrows, rfl⟩, hsorted, hserved⟩

section

variable {env : Env} {humans : Humans} {site : Site} {passed : Bool} {item : Item} {t : ℤ} {w' : World}

/-- A handler answers alike. -/
theorem Alike.eval {α : Type} {p : Handler α} (hp : Alike passed item t Eq p p)
    (h : Veils passed item t site.server w') : (p.run.eval answer site.server).1 = (p.run.eval answer w').1 :=
  sameEnd_eq.1 (hp _ _ h).2

theorem profiles_of_undated {w w' : World} {caller : Caller} {username : Text} {query : Option ℤ}
    {outcome : Except Abort ProfilePage}
    (howner : ((profileOwner env caller username).run.eval answer w).1 =
      ((profileOwner env caller username).run.eval answer w').1)
    (hcollections : w'.collections = w.collections)
    (hshared : ∀ userId, (w'.shared userId).undated = (w.shared userId).undated)
    (h : Profiles env { site with server := w } caller username query outcome) :
    Profiles env { site with server := w' } caller username query outcome := by
  unfold Profiles at h ⊢
  simp only [howner, hcollections] at h ⊢
  generalize ((profileOwner env caller username).run.eval answer w').1 = found at h ⊢
  cases found with
  | error e => exact h
  | ok owner =>
    simp only at h ⊢
    split at h
    · rwa [if_pos ‹_›]
    · rw [if_neg ‹_›]
      obtain ⟨rows, collections, hrows, hranked, houtcome⟩ := h
      obtain ⟨rows', hrows', heq⟩ := publicFeed_undated.1 (hshared owner.id ▸ publicFeed_undated.2 ⟨rows, hrows, rfl⟩)
      have hfiles : rows.files.map File.undated = rows'.files.map File.undated := congrArg Feed.files heq
      have hpastes : rows.pastes.map PasteRow.undated = rows'.pastes.map PasteRow.undated := congrArg Feed.pastes heq
      have hfileViews : rows'.files.map sharedFile = rows.files.map sharedFile := by
        have hviews := congrArg (List.map sharedFile) hfiles
        rw [List.map_map, List.map_map] at hviews
        exact hviews.symm
      have hpasteViews : rows'.pastes.map sharedPaste = rows.pastes.map sharedPaste := by
        have hviews := congrArg (List.map sharedPaste) hpastes
        rw [List.map_map, List.map_map] at hviews
        exact hviews.symm
      have hfilesLength : rows'.files.length = rows.files.length := by
        simpa using (congrArg List.length hfiles).symm
      have hpastesLength : rows'.pastes.length = rows.pastes.length := by
        simpa using (congrArg List.length hpastes).symm
      refine ⟨rows', collections, hrows', hranked, ?_⟩
      simp only [List.map_take, hfileViews, hpasteViews, hfilesLength, hpastesLength] at houtcome ⊢
      exact houtcome

/-- **The endpoints answer alike**, if the lists show the same. -/
theorem Veils.answers (h : Veils passed item t site.server w') (hfeed : w'.feed.undated = site.server.feed.undated)
    (hshared : ∀ userId, (w'.shared userId).undated = (site.server.shared userId).undated) (endpoint : Endpoint)
    (a : Answer) : site.Answers env humans endpoint a ↔ { site with server := w' }.Answers env humans endpoint a := by
  have hlist : ∀ {feed feed' : Feed} {limit offset : ℤ}, feed'.undated = feed.undated →
      ((∃ rows, PublicFeed site.dates feed limit offset rows ∧ a = .rows rows.undated) ↔
        ∃ rows, PublicFeed site.dates feed' limit offset rows ∧ a = .rows rows.undated) := by
    intro feed feed' limit offset hsame
    have hall : ∀ feed : Feed, (∃ rows, PublicFeed site.dates feed limit offset rows ∧ a = .rows rows.undated) ↔
        ∃ rows, PublicFeed site.dates feed.undated limit offset rows ∧ a = .rows rows := by
      intro feed
      simp only [publicFeed_undated]
      constructor
      · rintro ⟨rows, hrows, rfl⟩
        exact ⟨_, ⟨rows, hrows, rfl⟩, rfl⟩
      · rintro ⟨_, ⟨rows, hrows, rfl⟩, rfl⟩
        exact ⟨rows, hrows, rfl⟩
    rw [hall, hall, hsame]
  cases endpoint with
  | raw caller password segment => simp only [Site.Answers, (alike_raw env caller password segment).eval h]
  | preview caller segment => simp only [Site.Answers, (alike_preview env caller segment).eval h]
  | thumb segment => simp only [Site.Answers, (alike_thumb segment).eval h]
  | rawPaste caller password segment => simp only [Site.Answers, (alike_rawPaste env caller password segment).eval h]
  | viewPaste caller segment => simp only [Site.Answers, (alike_viewPaste env caller segment).eval h]
  | zip caller files pastes => simp only [Site.Answers, (alike_zip env caller files pastes).eval h]
  | oembed target => simp only [Site.Answers, (alike_oembed target).eval h]
  | comments caller target page =>
    simp only [Site.Answers, (alike_listComments env caller site.comments target page).eval h]
  | collection caller id => simp only [Site.Answers, (alike_viewCollection env caller humans site.items id).eval h]
  | explore query =>
    simp only [Site.Answers]
    have hsame : ∀ served, Explores env humans site.dates site.server.feed query served ↔
        Explores env humans site.dates w'.feed query served := by
      intro served
      rw [← explores_undated, ← hfeed, explores_undated]
    simp only [hsame]
  | profile caller username query =>
    have howner := (alike_profileOwner env caller username).eval h
    have hcollections : w'.collections = site.server.collections := by
      obtain ⟨-, -, rfl⟩ := h
      cases passed <;> cases item <;> rfl
    have hsame : ∀ outcome, Profiles env site caller username query outcome ↔
        Profiles env { site with server := w' } caller username query outcome := fun outcome =>
      ⟨profiles_of_undated howner hcollections hshared,
        profiles_of_undated howner.symm hcollections.symm fun userId => (hshared userId).symm⟩
    simp only [Site.Answers, hsame]
  | publicFeed limit offset => exact hlist hfeed
  | publicItems userId limit offset => exact hlist (hshared userId)

/-! ## Where they agree -/

theorem lists_undated {feed : Feed} : feed.undated.Lists item ↔ feed.Lists item := by
  cases item with
  | file core => simp [Feed.Lists, Feed.undated, File.undated]
  | paste core => simp [Feed.Lists, Feed.undated, PasteRow.undated]

/-- A long enough list shows the row. -/
theorem exists_lists (dates : Dates) {feed : Feed} (h : feed.Lists item) :
    ∃ limit rows, PublicFeed dates feed limit 0 rows ∧ rows.Lists item := by
  obtain ⟨files, hfiles⟩ := exists_ranked (fun file : File => dates.file file.idCore) feed.files
  obtain ⟨pastes, hpastes⟩ := exists_ranked (fun paste : PasteRow => dates.paste paste.idCore) feed.pastes
  have hall : ∀ {α : Type} (xs : List α), xs.length ≤ files.length + pastes.length →
      xs = (xs.drop (0 : ℤ).toNat).take ((files.length + pastes.length : ℕ) : ℤ).toNat := by
    intro α xs hxs
    rw [Int.toNat_zero, List.drop_zero, Int.toNat_natCast, List.take_of_length_le hxs]
  refine ⟨(files.length + pastes.length : ℕ), ⟨files, pastes⟩,
    ⟨⟨files, hfiles, hall files (by omega)⟩, pastes, hpastes, hall pastes (by omega)⟩, ?_⟩
  cases item with
  | file core =>
    obtain ⟨file, hfile, hcore⟩ := h
    exact ⟨file, hfiles.perm.mem_iff.2 hfile, hcore⟩
  | paste core =>
    obtain ⟨paste, hpaste, hcore⟩ := h
    exact ⟨paste, hpastes.perm.mem_iff.2 hpaste, hcore⟩

/-- A list shows nothing else. -/
theorem PublicFeed.lists {dates : Dates} {feed rows : Feed} {limit offset : ℤ}
    (h : PublicFeed dates feed limit offset rows) (hrows : rows.Lists item) : feed.Lists item := by
  cases item with
  | file core =>
    obtain ⟨file, hfile, hcore⟩ := hrows
    exact ⟨file, h.files.mem hfile, hcore⟩
  | paste core =>
    obtain ⟨paste, hpaste, hcore⟩ := hrows
    exact ⟨paste, h.pastes.mem hpaste, hcore⟩

/-- Lists that show the same are of the same rows. -/
theorem lists_of_shown {dates : Dates} {feed feed' : Feed}
    (h : ∀ limit a, (∃ rows, PublicFeed dates feed limit 0 rows ∧ a = Answer.rows rows.undated) →
      ∃ rows, PublicFeed dates feed' limit 0 rows ∧ a = Answer.rows rows.undated) (hlists : feed.Lists item) :
    feed'.Lists item := by
  obtain ⟨limit, rows, hrows, hshown⟩ := exists_lists dates hlists
  obtain ⟨rows', hrows', heq⟩ := h limit _ ⟨rows, hrows, rfl⟩
  refine hrows'.lists (lists_undated.1 ?_)
  rw [← Answer.rows.inj heq]
  exact lists_undated.2 hshown

/-- Who has published an item is found, if anybody. -/
theorem eval_authorName (w : World) (ownerId : Option Uuid) (fallback title : Text) : ∃ response,
    ((authorName ownerId fallback >>= fun author => pure (oembedAnswer title author)).run.eval answer w).1 =
      .ok response := by
  cases ownerId with
  | none => exact ⟨_, rfl⟩
  | some id => exact ⟨_, rfl⟩

/-- A row that has not expired is embedded, and one that is not there is not. -/
theorem oembed_row {w : World} {posted : Posted} (hposted : w.posted? item = some posted)
    (hlive : expired posted.expiresAt w.now = false) : ∃ target response,
    ((oembed target).run.eval answer w).1 = .ok response ∧
      ((oembed target).run.eval answer (w.without item)).1 = .error AppError.notFound := by
  have hgone := posted?_without w item
  cases item with
  | file c =>
    obtain ⟨file, hfile, rfl⟩ := Option.map_eq_some_iff.1 hposted
    have hnone : (w.without (.file c)).file? c.val = none := Option.map_eq_none_iff.1 hgone
    rw [← stripToCore_core c] at hfile hnone
    obtain ⟨response, hresponse⟩ := eval_authorName w file.ownerId w.config.instanceName file.originalName
    refine ⟨some (.file c.val), response, ?_, ?_⟩
    · show ((orThrow (w.file? (stripToCore c.val)) _ >>= _ : Handler Response).run.eval answer w).1 = _
      rw [hfile]
      show ((reject (expired file.expiresAt w.now = true) _ >>= _ : Handler Response).run.eval answer w).1 = _
      rw [show expired file.expiresAt w.now = false from hlive]
      exact hresponse
    · show ((orThrow ((w.without (.file c)).file? (stripToCore c.val)) _ >>= _ : Handler Response).run.eval _ _).1 = _
      rw [hnone]
      rfl
  | paste c =>
    obtain ⟨paste, hpaste, rfl⟩ := Option.map_eq_some_iff.1 hposted
    have hnone : (w.without (.paste c)).paste? c.val = none := Option.map_eq_none_iff.1 hgone
    rw [← stripToCore_core c] at hpaste hnone
    obtain ⟨response, hresponse⟩ := eval_authorName w paste.ownerId w.config.instanceName
      (paste.title.getD (['p', 'a', 's', 't', 'e', ' '] ++ paste.idCore.val))
    refine ⟨some (.paste c.val), response, ?_, ?_⟩
    · show ((orThrow (w.paste? (stripToCore c.val)) _ >>= _ : Handler Response).run.eval answer w).1 = _
      rw [hpaste]
      show ((reject (expired paste.expiresAt w.now = true) _ >>= _ : Handler Response).run.eval answer w).1 = _
      rw [show expired paste.expiresAt w.now = false from hlive]
      exact hresponse
    · show ((orThrow ((w.without (.paste c)).paste? (stripToCore c.val)) _ >>= _ : Handler Response).run.eval _ _).1 = _
      rw [hnone]
      rfl

theorem feed_eq (w : World) : w.feed = w.rowsWhere fun posted => listed posted.visibility posted.expiresAt w.now := rfl

theorem shared_eq (w : World) (userId : Uuid) : w.shared userId = w.rowsWhere fun posted =>
    posted.ownerId = some userId && posted.visibility = .published := rfl

theorem now_seen (w : World) (passed : Bool) (item : Item) : (w.seen passed item).now = w.now := by
  cases passed <;> cases item <;> rfl

theorem expired_of_unexpired {expiresAt : Option ℤ} {now : ℤ} (h : unexpired expiresAt now = true) :
    expired expiresAt now = false := by
  cases expiresAt with
  | none => rfl
  | some at' =>
    have hlt : now < at' := by simpa [unexpired] using h
    simp only [expired, Option.any_some, decide_eq_false_iff_not]
    omega

/-- A date that has not come yet, or never does. -/
theorem unexpired_of_ne {expiresAt : Option ℤ} {now : ℤ} (h : expired expiresAt now = false)
    (hne : expiresAt ≠ some now) : unexpired expiresAt now = true := by
  cases expiresAt with
  | none => rfl
  | some at' =>
    have hle : now ≤ at' := by simpa [expired] using h
    have hne' : at' ≠ now := fun heq => hne (congrArg some heq)
    simp only [unexpired, Option.all_some, decide_eq_true_eq]
    omega

end

/-- **The endpoints agree** on all rows but those that are public, and expire at this instant or have expired and have
an owner. -/
theorem expiry_agrees_iff {env : Env} {humans : Humans} {site : Site} {item : Item} {posted : Posted}
    (hposted : site.server.posted? item = some posted) : ExpiryAgrees env humans site item posted.expiresAt ↔
      ¬ (posted.visibility = .published ∧ (posted.expiresAt = some site.server.now ∨
        expired posted.expiresAt site.server.now = true ∧ posted.ownerId ≠ none)) := by
  constructor
  · rintro ⟨passed, hpassed, -, hagree⟩ ⟨hpublic, hnow | ⟨hexpired, howner⟩⟩
    · have hlive : expired posted.expiresAt site.server.now = false := by simp [hnow, expired]
      cases passed with
      | true =>
        -- the embed shows the row, and would not if it were gone
        obtain ⟨target, response, hshown, hgone⟩ := oembed_row hposted hlive
        have hanswer := (hagree (.oembed target) _).1 (by rw [Site.Answers, hshown])
        have hsame : Except.ok response = Except.error _ :=
          (Answer.response.inj hanswer).trans hgone
        cases hsame
      | false =>
        -- the feed does not show it, and would if it had no date
        have hlists : (site.server.forever item).feed.Lists item := by
          rw [feed_eq, World.lists_rowsWhere]
          exact ⟨_, (posted?_forever _ _).trans (congrArg _ hposted), by simp [listed, hpublic, unexpired]⟩
        have hshown := lists_of_shown (fun limit a => (hagree (.publicFeed limit 0) a).2) hlists
        rw [feed_eq, World.lists_rowsWhere] at hshown
        obtain ⟨posted', hposted', hlisted⟩ := hshown
        obtain rfl := Option.some.inj (hposted'.symm.trans hposted)
        simp [listed, hnow, unexpired] at hlisted
    · obtain rfl := hpassed hexpired
      obtain ⟨userId, howner⟩ := Option.ne_none_iff_exists'.1 howner
      -- the profile of the owner shows the row, and would not if it were gone
      have hlists : (site.server.shared userId).Lists item := by
        rw [shared_eq, World.lists_rowsWhere]
        exact ⟨posted, hposted, by simp [howner, hpublic]⟩
      have hshown := lists_of_shown (fun limit a => (hagree (.publicItems userId limit 0) a).1) hlists
      have hgone : ((site.server.without item).shared userId).Lists item := hshown
      rw [shared_eq, World.lists_rowsWhere, posted?_without] at hgone
      obtain ⟨_, hnone, -⟩ := hgone
      cases hnone
  · intro hfine
    have hveils : Veils (expired posted.expiresAt site.server.now) item site.server.now site.server
        (site.server.seen (expired posted.expiresAt site.server.now) item) := by
      refine ⟨rfl, fun posted' hposted' => ?_, rfl⟩
      rw [Option.some.inj (hposted'.symm.trans hposted)]
    refine ⟨_, id, expired_of_unexpired, hveils.answers ?_ fun userId => ?_⟩
    · rw [feed_eq, feed_eq, now_seen]
      refine World.rowsWhere_seen fun posted' hposted' => ?_
      obtain rfl := Option.some.inj (hposted'.symm.trans hposted)
      cases hexpired : expired posted'.expiresAt site.server.now with
      | true =>
        have hnot : unexpired posted'.expiresAt site.server.now = false := by
          by_contra hlive
          rw [expired_of_unexpired (Bool.not_eq_false _ ▸ hlive)] at hexpired
          cases hexpired
        simp [listed, hnot]
      | false =>
        by_cases hpublic : posted'.visibility = .published
        · have hlive := unexpired_of_ne hexpired fun hnow => hfine ⟨hpublic, .inl hnow⟩
          show listed _ _ _ = listed _ none _
          unfold listed
          rw [hlive]
          rfl
        · simp [listed, hpublic]
    · rw [shared_eq, shared_eq]
      refine World.rowsWhere_seen fun posted' hposted' => ?_
      obtain rfl := Option.some.inj (hposted'.symm.trans hposted)
      cases hexpired : expired posted'.expiresAt site.server.now with
      | true =>
        show (_ && _) = false
        by_contra hshared
        simp only [Bool.not_eq_false, Bool.and_eq_true, decide_eq_true_eq] at hshared
        exact hfine ⟨hshared.2, .inr ⟨hexpired, by simp [hshared.1]⟩⟩
      | false => rfl

/-- A site with no collections and no comments. -/
def plainSite (w : World) : Site := ⟨w, twoDates, fun _ => 0, fun _ => [], fun _ => []⟩

/-- A user's public paste, which has expired. -/
def expiredPaste : PasteRow := { publicPaste coreA (some 3) with ownerId := some 1 }

theorem uniqueId_kaz : UniqueOn User.id [plainUser 1 ['k', 'a', 'z'] false] := List.nodup_singleton _

/-- The user, and the paste. -/
def ownedPaste : World where
  __ := World.empty
  users := ⟨[plainUser 1 ['k', 'a', 'z'] false], uniqueId_kaz⟩
  pastes := ⟨[expiredPaste], List.nodup_singleton _⟩
  now := 5

theorem expiry_agrees_iff_twoPastes :
    ExpiryAgrees .plain plainHumans (plainSite twoPastes) (.paste coreB) (some 9) ∧
      ¬ ExpiryAgrees .plain plainHumans (plainSite ownedPaste) (.paste coreA) (some 3) := by
  have hpublic : twoPastes.posted? (.paste coreB) = some ⟨.published, none, some 9⟩ := by rfl
  have howned : ownedPaste.posted? (.paste coreA) = some ⟨.published, some 1, some 3⟩ := by rfl
  refine ⟨(@expiry_agrees_iff _ _ (plainSite twoPastes) _ _ hpublic).2 ?_, fun h => ?_⟩
  · decide
  · exact (@expiry_agrees_iff _ _ (plainSite ownedPaste) _ _ howned).1 h (by decide)

/-- The profile of the owner lists a paste that nobody can read. -/
theorem ownedPaste_disagrees : ¬ ExpiryAgrees .plain plainHumans (plainSite ownedPaste) (.paste coreA) (some 3) := by
  rintro ⟨passed, hpassed, -, hagree⟩
  obtain rfl : passed = true := hpassed (by decide)
  have hpage : Profiles .plain (plainSite ownedPaste) anonymous ['k', 'a', 'z'] none
      (.ok ⟨['k', 'a', 'z'], [], [sharedPaste expiredPaste], [], 1, false⟩) := by
    have hfeed : PublicFeed (plainSite ownedPaste).dates (ownedPaste.shared 1) 21 0 ⟨[], [expiredPaste]⟩ :=
      ⟨⟨[], ⟨List.Perm.refl _, .nil⟩, rfl⟩, [expiredPaste], ⟨List.Perm.refl _, List.pairwise_singleton _ _⟩, rfl⟩
    exact ⟨⟨[], [expiredPaste]⟩, [], hfeed, ⟨List.Perm.refl _, .nil⟩, rfl⟩
  obtain ⟨outcome, hprofile, heq⟩ := (hagree (.profile anonymous ['k', 'a', 'z'] none) _).1 ⟨_, hpage, rfl⟩
  obtain rfl := Answer.profile.inj heq
  obtain ⟨rows, collections, ⟨-, ⟨ranked, hranked, hrows⟩⟩, -, hshown⟩ := hprofile
  have hnone : rows.pastes = [] := by
    rw [hrows, List.Perm.eq_nil hranked.perm]
    rfl
  have hpastes := congrArg ProfilePage.pastes (Except.ok.inj hshown)
  rw [hnone] at hpastes
  cases hpastes

end Server
end Uwuubox
