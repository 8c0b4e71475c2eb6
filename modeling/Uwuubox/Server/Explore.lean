import Uwuubox.Server.Requests
import Uwuubox.Dedupe.Consistency
import Uwuubox.Table.Ranked
import Uwuubox.Bytes.Pieces

/-!
# The explore page

`page` of `src/routes/explore.rs` merges the newest public files and the newest public pastes and cuts one
page out of them.

* `Dates` — the column `created_at`, which nothing else reads.
* `Feed`, `World.feed` — the rows that `public_feed` selects from.
* `PublicFeed` — what it may return: in which order rows with equal dates come is up to the database.
* `explorePage`, `Explores` — the page, and what may be served as one.
* `Explores.listed`, `Explores.next` — the dates on page `p` and whether there is a next one.
* `explore_partition` — **the pages are a partition** of the feed.
-/

namespace Uwuubox
namespace Server

open Dedupe Table Pieces

/-! ## The feed -/

/-- The column `created_at` of both tables. -/
structure Dates where
  file : Core → ℤ
  paste : Core → ℤ

/-- The rows of the feed. -/
structure Feed where
  files : List File
  pastes : List PasteRow

/-- `visibility = 'public' AND (expires_at IS NULL OR expires_at > now())` -/
def listed (visibility : Visibility) (expiresAt : Option ℤ) (now : ℤ) : Bool :=
  visibility = .published && unexpired expiresAt now

/-- What is public and has not expired. -/
def World.feed (w : World) : Feed where
  files := (w.dedupe.files.rows.map w.fileOf).filter fun file => listed file.visibility file.expiresAt w.now
  pastes := w.pastes.rows.filter fun paste => listed paste.visibility paste.expiresAt w.now

/-- `ORDER BY created_at DESC LIMIT limit OFFSET offset` -/
def Selects {α : Type} (createdAt : α → ℤ) (rows : List α) (limit offset : ℤ) (out : List α) : Prop :=
  ∃ ranked, Ranked createdAt rows ranked ∧ out = (ranked.drop offset.toNat).take limit.toNat

/-- `public_feed`. -/
structure PublicFeed (dates : Dates) (feed : Feed) (limit offset : ℤ) (out : Feed) : Prop where
  files : Selects (fun file : File => dates.file file.idCore) feed.files limit offset out.files
  pastes : Selects (fun paste : PasteRow => dates.paste paste.idCore) feed.pastes limit offset out.pastes

/-! ## The page -/

/-- `human_bytes` and `human_time`. -/
structure Humans where
  bytes : ℤ → Text
  time : ℤ → Text

/-- `ExploreItemView` -/
structure ExploreItemView where
  kind : String
  title : Text
  url : Text
  detail : Text
  createdHuman : Text
  createdAt : ℤ
deriving DecidableEq

/-- What the template shows of the feed. -/
structure ExplorePage where
  items : List ExploreItemView
  page : ℤ
  hasNext : Bool
  canonicalUrl : Text
deriving DecidableEq

/-- The decimal digits of a page number. -/
def pageText (page : ℤ) : Text := (toString page).toList

/-- The column `format`. -/
def Format.word : Format → Text
  | .code => ['c', 'o', 'd', 'e']
  | .markdown => ['m', 'a', 'r', 'k', 'd', 'o', 'w', 'n']

section

variable (humans : Humans) (dates : Dates)

/-- The view of a file. -/
def fileItem (file : File) : ExploreItemView where
  kind := "file"
  title := file.originalName
  url := ['/', 'f', '/'] ++ file.idCore.val ++ file.ext.val
  detail := humans.bytes file.sizeBytes ++ [' ', '·', ' '] ++ file.mimeStored
  createdHuman := humans.time (dates.file file.idCore)
  createdAt := dates.file file.idCore

/-- The view of a paste. -/
def pasteItem (paste : PasteRow) : ExploreItemView where
  kind := "paste"
  title := paste.title.getD (['p', 'a', 's', 't', 'e', ' '] ++ paste.idCore.val)
  url := ['/', 'p', '/'] ++ paste.idCore.val
  detail := paste.format.word
  createdHuman := humans.time (dates.paste paste.idCore)
  createdAt := dates.paste paste.idCore

/-- The views of both, files first. -/
def Feed.items (feed : Feed) : List ExploreItemView :=
  feed.files.map (fileItem humans dates) ++ feed.pastes.map (pasteItem humans dates)

end

/-- `query.page.unwrap_or(1).clamp(1, 10_000)` -/
def pageNumber (query : Option ℤ) : ℤ := max 1 (min (query.getD 1) 10000)

/-- The page that is cut out of the sorted items. -/
def explorePage (env : Env) (page : ℤ) (sorted : List ExploreItemView) : ExplorePage :=
  let skip := ((page - 1) * 20).toNat
  let items := (sorted.drop skip).take 21
  { items := items.take 20
    page := page
    hasNext := decide (items.length > 20)
    canonicalUrl := env.baseUrl ++ ['/', 'e', 'x', 'p', 'l', 'o', 'r', 'e'] ++
      if page = 1 then [] else ['?', 'p', 'a', 'g', 'e', '='] ++ pageText page }

/-- What may be served: `sort_unstable_by_key` leaves items with equal dates in any order, too. -/
def Explores (env : Env) (humans : Humans) (dates : Dates) (feed : Feed) (query : Option ℤ) (served : ExplorePage) :
    Prop :=
  ∃ rows sorted, PublicFeed dates feed (pageNumber query * 20 + 1) 0 rows ∧
    Ranked ExploreItemView.createdAt (rows.items humans dates) sorted ∧
    served = explorePage env (pageNumber query) sorted

/-! ## One page -/

section

variable {env : Env} {humans : Humans} {dates : Dates} {feed : Feed} {query : Option ℤ} {served : ExplorePage}

theorem exists_selects {α : Type} (createdAt : α → ℤ) (rows : List α) (limit offset : ℤ) :
    ∃ out, Selects createdAt rows limit offset out := by
  obtain ⟨ranked, hranked⟩ := exists_ranked createdAt rows
  exact ⟨_, ranked, hranked, rfl⟩

theorem Selects.mem {α : Type} {createdAt : α → ℤ} {rows out : List α} {limit offset : ℤ} {row : α}
    (h : Selects createdAt rows limit offset out) (hrow : row ∈ out) : row ∈ rows := by
  obtain ⟨ranked, hranked, rfl⟩ := h
  exact hranked.mem (List.mem_of_mem_drop (List.mem_of_mem_take hrow))

/-- There always is a page. -/
theorem exists_explores (env : Env) (humans : Humans) (dates : Dates) (feed : Feed) (query : Option ℤ) :
    ∃ served, Explores env humans dates feed query served := by
  obtain ⟨files, hfiles⟩ := exists_selects (fun file : File => dates.file file.idCore) feed.files
    (pageNumber query * 20 + 1) 0
  obtain ⟨pastes, hpastes⟩ := exists_selects (fun paste : PasteRow => dates.paste paste.idCore) feed.pastes
    (pageNumber query * 20 + 1) 0
  obtain ⟨sorted, hsorted⟩ := exists_ranked ExploreItemView.createdAt (Feed.items humans dates ⟨files, pastes⟩)
  exact ⟨_, ⟨files, pastes⟩, sorted, ⟨hfiles, hpastes⟩, hsorted, rfl⟩

/-- A page number that is in bounds is taken as it is. -/
theorem pageNumber_some {p : ℕ} (hp : 1 ≤ p) (hp' : p ≤ 10000) : pageNumber (some (p : ℤ)) = p := by
  show max 1 (min (p : ℤ) 10000) = p
  omega

/-- **The sorted items of a page**: as far as the page goes, their dates are those of all items, and there is one more
of them if there is one more item. -/
theorem sorted_ranks {ranked sorted : List ExploreItemView} {rows : Feed} {p : ℕ}
    (hranked : Ranked ExploreItemView.createdAt (feed.items humans dates) ranked)
    (hrows : PublicFeed dates feed (p * 20 + 1) 0 rows)
    (hsorted : Ranked ExploreItemView.createdAt (rows.items humans dates) sorted) :
    (sorted.take (p * 20 + 1)).map ExploreItemView.createdAt = (ranked.take (p * 20 + 1)).map ExploreItemView.createdAt ∧
      min sorted.length (p * 20 + 1) = min ranked.length (p * 20 + 1) := by
  obtain ⟨⟨files, hfiles, hfilesOut⟩, pastes, hpastes, hpastesOut⟩ := hrows
  have hlimit : ((p : ℤ) * 20 + 1).toNat = p * 20 + 1 := by omega
  simp only [Int.toNat_zero, List.drop_zero, hlimit] at hfilesOut hpastesOut
  have hparts : rows.items humans dates =
      (files.map (fileItem humans dates)).take (p * 20 + 1) ++
        (pastes.map (pasteItem humans dates)).take (p * 20 + 1) := by
    simp only [Feed.items, hfilesOut, hpastesOut, List.map_take]
  have hkeys := (hfiles.map (f := fileItem humans dates) fun _ => rfl).take_append
    (hpastes.map (f := pasteItem humans dates) fun _ => rfl) (hparts ▸ hsorted) hranked le_rfl le_rfl
  refine ⟨hkeys, ?_⟩
  have := congrArg List.length hkeys
  simp only [List.length_map, List.length_take] at this
  omega

/-- **The dates on page `p`** are ranks `20 * (p - 1) + 1` to `20 * p`, and there is a next page if there are more items. -/
structure ExplorePage.Ranks (served : ExplorePage) (ranked : List ExploreItemView) (p : ℕ) : Prop where
  dates : served.items.map ExploreItemView.createdAt =
    ((ranked.drop (20 * (p - 1))).take 20).map ExploreItemView.createdAt
  next : served.hasNext = true ↔ 20 * p < ranked.length

theorem Explores.ranks {ranked : List ExploreItemView} {p : ℕ} (hp : 1 ≤ p) (hp' : p ≤ 10000)
    (hranked : Ranked ExploreItemView.createdAt (feed.items humans dates) ranked)
    (h : Explores env humans dates feed (some (p : ℤ)) served) : served.Ranks ranked p := by
  obtain ⟨rows, sorted, hrows, hsorted, rfl⟩ := h
  rw [pageNumber_some hp hp'] at hrows ⊢
  obtain ⟨hkeys, hlength⟩ := sorted_ranks hranked hrows hsorted
  have hskip : (((p : ℤ) - 1) * 20).toNat = 20 * (p - 1) := by omega
  unfold explorePage
  rw [hskip]
  refine ⟨?_, ?_⟩
  · -- page `p` ends before the items that have not been fetched begin
    have hcut : ∀ items : List ExploreItemView, (items.drop (20 * (p - 1))).take 20 =
        ((items.take (p * 20 + 1)).drop (20 * (p - 1))).take 20 := by
      intro items
      rw [List.drop_take, List.take_take, min_eq_left (by omega)]
    show (((sorted.drop (20 * (p - 1))).take 21).take 20).map _ = _
    rw [List.take_take, min_eq_left (by omega), hcut sorted, hcut ranked]
    simp only [List.map_take, List.map_drop] at hkeys ⊢
    rw [hkeys]
  · simp only [List.length_take, List.length_drop, decide_eq_true_eq]
    omega

/-- What is listed is in the feed. -/
theorem Explores.mem {item : ExploreItemView} (h : Explores env humans dates feed query served)
    (hitem : item ∈ served.items) : item ∈ feed.items humans dates := by
  obtain ⟨rows, sorted, hrows, hsorted, rfl⟩ := h
  have hsorted' := hsorted.mem (List.mem_of_mem_drop (List.mem_of_mem_take (List.mem_of_mem_take hitem)))
  rcases List.mem_append.1 hsorted' with h | h
  · obtain ⟨file, hfile, rfl⟩ := List.mem_map.1 h
    exact List.mem_append_left _ (List.mem_map_of_mem (hrows.files.mem hfile))
  · obtain ⟨paste, hpaste, rfl⟩ := List.mem_map.1 h
    exact List.mem_append_right _ (List.mem_map_of_mem (hrows.pastes.mem hpaste))

end

/-- **The pages are a partition of the feed**: page `p` lists its ranks, and where no two items have the same date, the
pages up to `p` list the newest items, each of them once.  The instance may have changed in between in anything but
its feed. -/
theorem explore_partition {env : Env} {humans : Humans} {dates : Dates} {feed : Feed} {ranked : List ExploreItemView}
    (hranked : Ranked ExploreItemView.createdAt (feed.items humans dates) ranked) {p : ℕ} (hp : 1 ≤ p) (hp' : p ≤ 10000) :
    (∀ w : World, w.feed = feed → ∀ served, Explores env humans dates w.feed (some (p : ℤ)) served →
      served.Ranks ranked p) ∧
    (((feed.items humans dates).map ExploreItemView.createdAt).Nodup → ∀ (w : ℕ → World) (served : ℕ → ExplorePage),
      (∀ i < p, (w i).feed = feed ∧ Explores env humans dates (w i).feed (some ((i + 1 : ℕ) : ℤ)) (served i)) →
      ((List.range p).flatMap fun i => (served i).items) = ranked.take (20 * p) ∧ (ranked.take (20 * p)).Nodup) := by
  refine ⟨?_, fun hdistinct w served hserved => ⟨?_, ?_⟩⟩
  · rintro w rfl served hserved
    exact hserved.ranks hp hp' hranked
  · have hkey : Set.InjOn ExploreItemView.createdAt {item | item ∈ feed.items humans dates} := fun a ha b hb =>
      List.inj_on_of_nodup_map hdistinct ha hb
    have hpage : ∀ i < p, (served i).items = piece 20 i ranked := by
      intro i hi
      obtain ⟨hfeed, hserves⟩ := hserved i hi
      rw [hfeed] at hserves
      have hdates := (hserves.ranks (by omega) (by omega) hranked).dates
      rw [Nat.add_sub_cancel, Nat.mul_comm] at hdates
      refine eq_of_map_key hkey (fun _ => hserves.mem) (fun item hitem => ?_) hdates
      exact hranked.mem (List.mem_of_mem_drop (List.mem_of_mem_take hitem))
    rw [List.flatMap_def, List.map_congr_left fun i hi => hpage i (List.mem_range.1 hi), flatten_take_pieces,
      Nat.mul_comm]
  · have hnodup : ranked.Nodup := hranked.perm.nodup_iff.2 (List.Nodup.of_map _ hdistinct)
    exact hnodup.sublist (List.take_sublist _ _)

/-- A public paste. -/
def publicPaste (core : Core) (expiresAt : Option ℤ) : PasteRow :=
  ⟨core, none, none, ['h', 'i'], none, .code, .published, false, none, expiresAt, none⟩

/-- Two pastes; the second is newer, and expires later on. -/
def twoPastes : World where
  __ := World.empty
  pastes := ⟨[publicPaste coreA none, publicPaste coreB (some 9)], by decide⟩
  now := 5

/-- The dates of the two. -/
def twoDates : Dates := ⟨fun _ => 0, fun core => if core.val.head? = some 'b' then 2 else 1⟩

/-- Numbers as they are. -/
def plainHumans : Humans := ⟨pageText, pageText⟩

/-- The newer one first. -/
def twoRanked : List ExploreItemView :=
  [pasteItem plainHumans twoDates (publicPaste coreB (some 9)),
    pasteItem plainHumans twoDates (publicPaste coreA none)]

theorem explore_partition_twoPastes : ∃ served, Explores .plain plainHumans twoDates twoPastes.feed (some 1) served ∧
    served.Ranks twoRanked 1 ∧ served.items = twoRanked := by
  obtain ⟨served, hserved⟩ := exists_explores .plain plainHumans twoDates twoPastes.feed (some 1)
  have hranked : Ranked ExploreItemView.createdAt (twoPastes.feed.items plainHumans twoDates) twoRanked :=
    ⟨List.Perm.swap _ _ _, by decide⟩
  obtain ⟨hranks, hpages⟩ := @explore_partition .plain _ _ _ _ hranked 1 le_rfl (by norm_num)
  refine ⟨served, hserved, hranks twoPastes rfl served hserved, ?_⟩
  have hone := (hpages (by decide) (fun _ => twoPastes) (fun _ => served) fun i hi => ?_).1
  · rw [List.range_one, List.flatMap_singleton] at hone
    exact hone
  · obtain rfl := Nat.lt_one_iff.1 hi
    exact ⟨rfl, hserved⟩

end Server
end Uwuubox
