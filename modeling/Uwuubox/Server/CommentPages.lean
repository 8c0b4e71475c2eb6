import Uwuubox.Prog.Evaluate
import Uwuubox.Server.CommentRuns

/-!
# Reading comments

What `list` shows, and what becomes of it.

* `eval_onComments`, `eval_askComment` — the steps of the handlers in one state; `listed_of_eval` — what is listed.
* `canDelete_agrees` — **a comment is shown as one that the caller can delete if and only if it can.**
* `created_first` — **who writes a comment finds it first on the first page**, as it was answered.
* `reader_misses_nothing` — **who turns the page until there is no next one has read every comment that was there at
  first**, whatever is written meanwhile; `reader_reads_once` — and each of them once, if nothing is.
-/

namespace Uwuubox
namespace Server
namespace Comments

open Dedupe Storage Table Fallible Relation

/-! ## Handlers in one state -/

/-- What the handler returns, in this state. -/
def value {α : Type} (p : Handler α) (w : World) : Except Abort α := (eval answer p w).1

/-- A handler of the server reads the state of the server. -/
theorem eval_onServer {α : Type} (p : Query α) (s : CommentWorld) : (onServer p).eval answerComment s =
    ((p.eval answer s.server).1, { s with server := (p.eval answer s.server).2 }) := by
  induction p generalizing s with
  | ret a => rfl
  | call op k ih => exact ih _ _

/-- What only reads leaves the state as it is. -/
theorem eval_of_only {α : Type} {p : Handler α} (hp : Only [] p) (w : World) :
    eval answer p w = (value p w, w) := by
  have h := (@triple_of_only α (fun _ => False) w p hp).eval
  have hw : (p.run.eval answer w).2 = w := by
    cases hr : (p.run.eval answer w).1 with
    | ok a =>
      rw [hr] at h
      exact h
    | error e =>
      rw [hr] at h
      exact h
  exact Prod.ext rfl hw

/-- A step of the server that only reads. -/
theorem eval_onComments {α : Type} {p : Handler α} (hp : Only [] p) (s : CommentWorld) :
    eval answerComment (onComments p) s = (value p s.server, s) := by
  have h := eval_of_only hp s.server
  unfold eval at h ⊢
  unfold onComments
  rw [ExceptT.run_mk, eval_onServer, h]

theorem eval_askComment (op : CommentOp) (s : CommentWorld) : eval answerComment (askComment op) s =
    ((answerComment s op).1.mapError fun e => Abort.error (.from' e), (answerComment s op).2) := by
  unfold askComment
  rw [eval_bind]
  show andThen answerComment _ (.ok (answerComment s op).1, (answerComment s op).2) = _
  rw [andThen_ok]
  cases (answerComment s op).1 <;> rfl

/-- A step of the server that only reads, and what follows it. -/
theorem eval_onComments_bind {α β : Type} {p : Handler α} {f : α → CommentHandler β} {s : CommentWorld} {a : α}
    (hp : Only [] p) (h : value p s.server = .ok a) :
    eval answerComment (onComments p >>= f) s = eval answerComment (f a) s :=
  eval_bind_of_ok (by rw [eval_onComments hp, h])

section Value

variable {α β : Type} {w : World}

theorem value_bind_ok {p : Handler α} {f : α → Handler β} (hp : Only [] p) {b : β} :
    value (p >>= f) w = .ok b ↔ ∃ a, value p w = .ok a ∧ value (f a) w = .ok b := by
  have hbind : value (p >>= f) w = (andThen answer f (value p w, w)).1 := by
    unfold value
    rw [eval_bind, eval_of_only hp]
  rw [hbind]
  cases value p w with
  | ok a => simp [value]
  | error e => simp

@[simp] theorem value_pure (a : α) : value (pure a) w = .ok a := rfl

theorem value_orThrow {o : Option α} {e : Abort} {a : α} : value (orThrow o e) w = .ok a ↔ o = some a := by
  unfold value
  rw [eval_orThrow]
  cases o <;> simp

theorem value_commentIdentity {env : Env} {caller : Caller} {identity : Identity}
    (h : value (commentIdentity env caller) w = .ok identity) :
    value (always (currentIdentity env caller)) w = .ok (some identity) := by
  obtain ⟨found, hfound, hcheck⟩ := (value_bind_ok (.always (only_currentIdentity env caller))).1 h
  unfold value at hcheck
  rw [eval_check] at hcheck
  rw [hfound, requireScope_ok hcheck]

/-- What a request names is resolved to what it names. -/
theorem names_of_value {target : CommentTarget} {found : Target} (h : value (resolveTarget target) w = .ok found) :
    Names target found.commented := by
  cases target with
  | file core =>
    obtain ⟨file?, hfile, h⟩ := (value_bind_ok (.read rfl)).1 h
    obtain ⟨file, hsome, h⟩ := (value_bind_ok .orThrow).1 h
    obtain ⟨now, -, h⟩ := (value_bind_ok (.read rfl)).1 h
    obtain ⟨_, -, h⟩ := (value_bind_ok .reject).1 h
    cases h
    rw [value_orThrow] at hsome
    subst hsome
    obtain ⟨row, -, rfl, hcore⟩ := file?_spec (Except.ok.inj hfile)
    exact hcore
  | paste core =>
    obtain ⟨paste?, hpaste, h⟩ := (value_bind_ok (.read rfl)).1 h
    obtain ⟨paste, hsome, h⟩ := (value_bind_ok .orThrow).1 h
    obtain ⟨now, -, h⟩ := (value_bind_ok (.read rfl)).1 h
    obtain ⟨_, -, h⟩ := (value_bind_ok .reject).1 h
    cases h
    rw [value_orThrow] at hsome
    subst hsome
    exact (paste?_spec (Except.ok.inj hpaste)).2
  | collection id =>
    obtain ⟨id, hid, h⟩ := (value_bind_ok .orThrow).1 h
    obtain ⟨collection?, hcollection, h⟩ := (value_bind_ok (.read rfl)).1 h
    obtain ⟨collection, hsome, h⟩ := (value_bind_ok .orThrow).1 h
    cases h
    rw [value_orThrow] at hid hsome
    subst hid hsome
    exact congrArg some (Keyed.mem_of_find? (Except.ok.inj hcollection)).2.symm
  | other => cases h

/-- What a row is about is resolved as its name in a request is. -/
theorem resolve_rowTarget {target : CommentTarget} {subject : Subject} (h : Names target subject) :
    resolveTarget (rowTarget subject) = resolveTarget target := by
  rcases subject with (core | core) | id
  · cases target with
    | file supplied =>
      have hcore : stripToCore core.val = stripToCore supplied := (stripToCore_core core).trans h
      simp only [rowTarget, resolveTarget]
      generalize stripToCore core.val = t at hcore ⊢
      subst hcore
      rfl
    | _ => exact h.elim
  · cases target with
    | paste supplied =>
      have hcore : stripToCore core.val = stripToCore supplied := (stripToCore_core core).trans h
      simp only [rowTarget, resolveTarget]
      generalize stripToCore core.val = t at hcore ⊢
      subst hcore
      rfl
    | _ => exact h.elim
  · cases target with
    | collection supplied =>
      obtain rfl : supplied = some id := h
      rfl
    | _ => exact h.elim

end Value

/-! ## What is listed -/

section List

variable {env : Env} {caller : Caller} {target : CommentTarget} {page : Option ℤ} {s s' : CommentWorld}
  {shown : CommentsPage}

/-- The number of the page that is shown, and where it starts. -/
def pageNumber (page : Option ℤ) : ℤ := max 1 (page.getD 1)

def pageOffset (page : Option ℤ) : ℤ := min ((pageNumber page - 1) * 50) (2 ^ 63 - 1)

/-- **What is listed**: comments about the target, as they are for the caller. -/
def listing (s : CommentWorld) (page : Option ℤ) (identity : Option Identity) (found : Target) (canModerate : Bool) :
    CommentsPage :=
  let shown := (cut 50 (((s.about found.commented).drop (pageOffset page).toNat).take 51)).map fun comment =>
    viewComment (s.withAuthor comment) identity found.ownerId canModerate
  ⟨shown.rows, pageNumber page, shown.hasNext⟩

/-- Who asks, what for, and whether it may moderate. -/
structure Asks (env : Env) (caller : Caller) (target : CommentTarget) (w : World) (identity : Option Identity)
    (found : Target) (canModerate : Bool) : Prop where
  who : value (always (currentIdentity env caller)) w = .ok identity
  what : value (resolveTarget target) w = .ok found
  rights : value (moderates identity) w = .ok canModerate

theorem eval_list {identity : Option Identity} {found : Target} {canModerate : Bool}
    (h : Asks env caller target s.server identity found canModerate) (page : Option ℤ) :
    eval answerComment (list env caller target page) s =
      (.ok (.listed (listing s page identity found canModerate)), s) := by
  unfold list
  rw [eval_onComments_bind (.always (only_currentIdentity env caller)) h.who,
    eval_onComments_bind (only_resolveTarget target) h.what, eval_bind, eval_askComment]
  show eval answerComment (onComments (moderates identity) >>= _) s = _
  rw [eval_onComments_bind (only_moderates identity) h.rights, cut_map]
  unfold listing Page.map
  rw [List.map_map]
  rfl

theorem listed_of_eval (h : eval answerComment (list env caller target page) s = (.ok (.listed shown), s')) :
    s' = s ∧ ∃ identity found canModerate, Asks env caller target s.server identity found canModerate ∧
      shown = listing s page identity found canModerate := by
  have hlist := h
  unfold list at h
  obtain ⟨identity, t, hstep, h⟩ := eval_bind_ok.1 h
  rw [eval_onComments (.always (only_currentIdentity env caller))] at hstep
  obtain ⟨hidentity, rfl⟩ := Prod.mk.inj hstep
  obtain ⟨found, t, hstep, h⟩ := eval_bind_ok.1 h
  rw [eval_onComments (only_resolveTarget target)] at hstep
  obtain ⟨hfound, rfl⟩ := Prod.mk.inj hstep
  obtain ⟨rows, t, hstep, h⟩ := eval_bind_ok.1 h
  rw [eval_askComment] at hstep
  cases hstep
  obtain ⟨canModerate, t, hstep, h⟩ := eval_bind_ok.1 h
  rw [eval_onComments (only_moderates identity)] at hstep
  have hasks : Asks env caller target s.server identity found canModerate :=
    ⟨hidentity, hfound, congrArg Prod.fst hstep⟩
  rw [eval_list hasks] at hlist
  cases hlist
  exact ⟨rfl, identity, found, canModerate, hasks, rfl⟩

/-- A comment that is listed is one about the target. -/
theorem mem_listing {identity : Option Identity} {found : Target} {canModerate : Bool} {view : CommentView}
    (hview : view ∈ (listing s page identity found canModerate).comments) :
    ∃ comment ∈ s.comments, comment.subject = found.commented ∧
      view = viewComment (s.withAuthor comment) identity found.ownerId canModerate := by
  obtain ⟨comment, hmem, rfl⟩ := List.mem_map.1 hview
  have habout := List.mem_of_mem_drop (List.mem_of_mem_take (List.mem_of_mem_take hmem))
  unfold CommentWorld.about at habout
  rw [List.mem_insertionSort, List.mem_filter] at habout
  exact ⟨comment, habout.1, of_decide_eq_true habout.2, rfl⟩

/-- What `moderates` says is what `effective_limits` says. -/
theorem moderates_ok {identity : Identity} {canModerate : Bool} {w : World}
    (h : value (moderates (some identity)) w = .ok canModerate) : ∃ cfg limits,
      value (ask .instanceConfig) w = .ok cfg ∧ value (effectiveLimits cfg (some identity.user)) w = .ok limits ∧
        canModerate = limits.canModerate := by
  obtain ⟨cfg, hcfg, h⟩ := (value_bind_ok (.read rfl)).1 h
  obtain ⟨limits, hlimits, h⟩ := (value_bind_ok (only_effectiveLimits cfg _)).1 h
  cases h
  exact ⟨cfg, limits, hcfg, hlimits, rfl⟩

/-- The refusal. -/
def notAllowed : Abort := AppError.forbidden "not allowed to delete this comment"

/-- **A comment is shown as one that the caller can delete if and only if it can.**  Where a caller that may delete
comments at all is shown a comment, its request to delete the comment removes it, and nothing else, if the comment has
been marked as one that it can delete; else the request is refused and changes nothing. -/
theorem canDelete_agrees {identity : Identity} (hidentity : value (commentIdentity env caller) s.server = .ok identity)
    (hlist : eval answerComment (list env caller target page) s = (.ok (.listed shown), s')) {view : CommentView}
    (hview : view ∈ shown.comments) : eval answerComment (delete env caller view.id) s =
      if view.canDelete then
        (.ok (.deleted view.id), { s with comments := s.comments.delete fun comment => comment.id = view.id })
      else (.error notAllowed, s) := by
  obtain ⟨rfl, found?, target', canModerate, hasks, rfl⟩ := listed_of_eval hlist
  obtain rfl : found? = some identity :=
    Except.ok.inj (hasks.who.symm.trans (value_commentIdentity hidentity))
  obtain ⟨comment, hmem, hsubject, rfl⟩ := mem_listing hview
  obtain ⟨cfg, limits, hcfg, hlimits, rfl⟩ := moderates_ok hasks.rights
  have hfind : s'.comments.find? comment.id = some comment := Keyed.find?_eq_some.2 ⟨hmem, rfl⟩
  have hagain : value (resolveTarget (rowTarget comment.subject)) s'.server = .ok target' := by
    rw [hsubject, resolve_rowTarget (names_of_value hasks.what)]
    exact hasks.what
  show eval answerComment (delete env caller comment.id) s' = _
  unfold delete
  rw [eval_onComments_bind only_commentIdentity hidentity, eval_bind, eval_askComment]
  show andThen answerComment _ (.ok (s'.comments.find? comment.id), s') = _
  rw [hfind, andThen_ok, eval_bind, eval_orThrow]
  show eval answerComment _ s' = _
  rw [eval_onComments_bind (only_resolveTarget _) hagain, eval_onComments_bind (.read rfl) hcfg,
    eval_onComments_bind (only_effectiveLimits cfg _) hlimits, eval_bind, eval_reject]
  have hrefused : (comment.authorId ≠ some identity.user.id ∧ target'.ownerId ≠ some identity.user.id ∧
      ¬ limits.canModerate) ↔ ¬ (viewComment (s'.withAuthor comment) (some identity) target'.ownerId
        limits.canModerate).canDelete = true := by
    simp [viewComment, CommentWorld.withAuthor, and_assoc]
  by_cases hmay : (viewComment (s'.withAuthor comment) (some identity) target'.ownerId
      limits.canModerate).canDelete = true
  · rw [if_pos hmay, if_neg (fun h => hrefused.1 h hmay), andThen_ok, eval_bind, eval_askComment]
    show andThen answerComment _ (.ok (if (s'.comments.find? comment.id).isSome then 1 else 0), _) = _
    rw [hfind]
    rfl
  · rw [if_neg hmay, if_pos (hrefused.2 hmay)]
    rfl

/-- The state in which Kaz has written a comment. -/
def commentedWorld : CommentWorld := (played (CommentWorld.empty, []) commented).shared.1

/-- What Kaz is shown of it. -/
def firstView : CommentView := ⟨1, ['k', 'a', 'z'], ['h', 'i'], 0, true⟩

theorem canDelete_agrees_firstView : eval answerComment (delete .plain anonymous firstView.id) commentedWorld =
    if firstView.canDelete then (.ok (.deleted firstView.id),
      { commentedWorld with comments := commentedWorld.comments.delete fun comment => comment.id = firstView.id })
    else (.error notAllowed, commentedWorld) :=
  @canDelete_agrees .plain anonymous (.paste coreA.val) none commentedWorld commentedWorld ⟨[firstView], 1, false⟩ _
    (by rfl) (by rfl) _ List.mem_cons_self

end List

/-! ## The newest first -/

/-- Ids and times are in the order in which the rows have been inserted. -/
structure CommentWorld.Ordered (s : CommentWorld) : Prop where
  next : 1 ≤ s.nextId
  ids : ∀ comment ∈ s.comments, 1 ≤ comment.id ∧ comment.id ≤ 2 ^ 63 - 1 ∧ comment.id < s.nextId
  times : ∀ comment ∈ s.comments, comment.createdAt ≤ s.server.now

section Order

variable {mayFail : CommentOp → Prop} {s s' : CommentWorld} {op : CommentOp} {r : op.Res} {subject : Subject}

/-- The row that is inserted has the next id, which the column can hold. -/
theorem nextId_le_of_insert {authorId : Uuid} {body : Text} {r : (CommentOp.insertComment subject authorId body).Res}
    (h : execComment mayFail s (.insertComment subject authorId body) r s') (hnew : s'.comments ≠ s.comments) :
    s.nextId ≤ 2 ^ 63 - 1 := by
  by_contra hlt
  rcases h with heq | ⟨-, -, rfl | ⟨-, rfl⟩⟩
  · simp only [answerComment, if_neg hlt] at heq
    cases heq
    exact hnew rfl
  · exact hnew rfl
  · exact hnew rfl

theorem exec_commentNow (h : execComment mayFail s op r s') : s.server.now ≤ s'.server.now := by
  by_cases hop : ∃ op', op = .server op'
  · obtain ⟨op, rfl⟩ := hop
    obtain ⟨w, hexec, rfl⟩ := h
    exact exec_now hexec
  · rw [exec_server h fun op' heq => hop ⟨op', heq⟩]

theorem exec_ordered (h : execComment mayFail s op r s') (hs : s.Ordered) : s'.Ordered := by
  have hnow := exec_commentNow h
  rcases exec_comments h with ⟨hsame, hle⟩ | ⟨subject, authorId, body, rfl, hnext, hinsert⟩ | ⟨id, -, hnext, hdelete⟩
  · refine ⟨hs.next.trans hle, fun comment hmem => ?_, fun comment hmem => ?_⟩
    · rw [hsame] at hmem
      obtain ⟨hpos, hmax, hlt⟩ := hs.ids comment hmem
      exact ⟨hpos, hmax, hlt.trans_le hle⟩
    · rw [hsame] at hmem
      exact (hs.times comment hmem).trans hnow
  · have hmax := nextId_le_of_insert h fun heq => by
      have hlen := congrArg List.length (Keyed.insert?_eq_some hinsert).1
      rw [heq, List.length_cons] at hlen
      omega
    refine ⟨hnext ▸ le_add_of_le_of_nonneg hs.next zero_le_one, fun comment hmem => ?_, fun comment hmem => ?_⟩
    · rw [hnext]
      rcases (Keyed.mem_insert? hinsert).1 hmem with rfl | hmem
      · exact ⟨hs.next, hmax, lt_add_one _⟩
      · obtain ⟨hpos, hmax, hlt⟩ := hs.ids comment hmem
        exact ⟨hpos, hmax, hlt.trans (lt_add_one _)⟩
    · rcases (Keyed.mem_insert? hinsert).1 hmem with rfl | hmem
      · exact hnow
      · exact (hs.times comment hmem).trans hnow
  · refine ⟨hnext ▸ hs.next, fun comment hmem => ?_, fun comment hmem => ?_⟩
    · rw [hdelete] at hmem
      rw [hnext]
      exact hs.ids comment (Keyed.mem_delete.1 hmem).1
    · rw [hdelete] at hmem
      exact (hs.times comment (Keyed.mem_delete.1 hmem).1).trans hnow

/-- **A new comment comes first.** -/
theorem about_insert {authorId : Uuid} {body : Text} (hs : s.Ordered)
    (hinsert : s.comments.insert? (s.newRow subject authorId body) = some s'.comments) (other : Subject) :
    s'.about other = (if subject = other then [s.newRow subject authorId body] else []) ++ s.about other := by
  unfold CommentWorld.about
  rw [(Keyed.insert?_eq_some hinsert).1]
  by_cases hsubject : subject = other
  · have hdecide : decide ((s.newRow subject authorId body).subject = other) = true := decide_eq_true hsubject
    rw [if_pos hsubject, List.filter_cons, hdecide, if_pos rfl, List.insertionSort_cons]
    have hbefore : ∀ comment ∈ (s.comments.rows.filter fun comment => comment.subject = other).insertionSort
        Comment.Before, (s.newRow subject authorId body).Before comment := by
      intro comment hmem
      rw [List.mem_insertionSort, List.mem_filter] at hmem
      have htime := hs.times comment hmem.1
      obtain ⟨-, -, hlt⟩ := hs.ids comment hmem.1
      rcases htime.lt_or_eq with hlt' | heq
      · exact .inl hlt'
      · exact .inr ⟨heq.symm, hlt.le⟩
    revert hbefore
    cases (s.comments.rows.filter fun comment => comment.subject = other).insertionSort Comment.Before with
    | nil => exact fun _ => rfl
    | cons first rest => exact fun hbefore => if_pos (hbefore first List.mem_cons_self)
  · have hdecide : decide ((s.newRow subject authorId body).subject = other) = false := decide_eq_false hsubject
    rw [if_neg hsubject, List.filter_cons, hdecide, if_neg Bool.false_ne_true, List.nil_append]

theorem mem_about {comment : Comment} :
    comment ∈ s.about subject ↔ comment ∈ s.comments ∧ comment.subject = subject := by
  unfold CommentWorld.about
  rw [List.mem_insertionSort, List.mem_filter, decide_eq_true_eq]
  rfl

/-- What deletes no comment about the subject leaves those that are there in their places from the end. -/
theorem exec_about (h : execComment mayFail s op r s') (hs : s.Ordered)
    (hop : ∀ comment ∈ s.about subject, op ≠ .deleteComment comment.id) : s.about subject <:+ s'.about subject := by
  rcases exec_comments h with ⟨hsame, -⟩ | ⟨other, authorId, body, -, -, hinsert⟩ | ⟨id, rfl, -, hdelete⟩
  · unfold CommentWorld.about
    rw [hsame]
  · rw [about_insert hs hinsert subject]
    exact List.suffix_append _ _
  · have hkept : s'.about subject = s.about subject := by
      have hrows : s'.comments.rows = s.comments.rows.filter fun comment => !decide (comment.id = id) := by
        rw [hdelete]
        rfl
      unfold CommentWorld.about
      rw [hrows, List.filter_filter]
      congr 1
      refine List.filter_congr fun comment hmem => ?_
      by_cases hsubject : comment.subject = subject
      · have hid : comment.id ≠ id := fun heq => hop comment (mem_about.2 ⟨hmem, hsubject⟩) (heq ▸ rfl)
        simp [hsubject, hid]
      · simp [hsubject]
    rw [hkept]

/-- There are no more comments than ids. -/
theorem length_about_le (hs : s.Ordered) (subject : Subject) : (s.about subject).length ≤ 2 ^ 63 - 1 := by
  have hnodup : ((s.about subject).map Comment.id).Nodup := by
    unfold CommentWorld.about
    refine ((List.perm_insertionSort _ _).map _).nodup_iff.2 ?_
    exact s.comments.unique.sublist (List.filter_sublist.map _)
  have hsub : ((s.about subject).map Comment.id).toFinset ⊆ Finset.Icc 1 (2 ^ 63 - 1) := by
    intro id hid
    obtain ⟨comment, hmem, rfl⟩ := List.mem_map.1 (List.mem_toFinset.1 hid)
    obtain ⟨hpos, hmax, -⟩ := hs.ids comment (mem_about.1 hmem).1
    exact Finset.mem_Icc.2 ⟨hpos, hmax⟩
  have hcard := Finset.card_le_card hsub
  rw [List.toFinset_card_of_nodup hnodup, List.length_map, Int.card_Icc] at hcard
  exact hcard.trans (by decide)

end Order

/-! ## Who writes a comment -/

section Create

variable {env : Env} {caller : Caller} {target : CommentTarget} {input : Text} {s s' : CommentWorld}
  {view : CommentView}

/-- What `create` has done when it has written a comment. -/
theorem created_of_eval (h : eval answerComment (create env caller target input) s = (.ok (.created view), s')) :
    ∃ identity found canModerate comments, Asks env caller target s.server (some identity) found canModerate ∧
      s.comments.insert? (s.newRow found.commented identity.user.id (trim input)) = some comments ∧
      s' = { s.skipId with comments := comments } ∧
      view = viewComment (s.withAuthor (s.newRow found.commented identity.user.id (trim input))) (some identity)
        found.ownerId canModerate := by
  unfold create at h
  obtain ⟨identity, t, hstep, h⟩ := eval_bind_ok.1 h
  rw [eval_onComments only_commentIdentity] at hstep
  obtain ⟨hidentity, rfl⟩ := Prod.mk.inj hstep
  obtain ⟨cfg, t, hstep, h⟩ := eval_bind_ok.1 h
  rw [eval_onComments (.read rfl)] at hstep
  obtain ⟨hcfg, rfl⟩ := Prod.mk.inj hstep
  obtain ⟨limits, t, hstep, h⟩ := eval_bind_ok.1 h
  rw [eval_onComments (only_effectiveLimits cfg _)] at hstep
  obtain ⟨hlimits, rfl⟩ := Prod.mk.inj hstep
  have hmoderates : value (moderates (some identity)) s.server = .ok limits.canModerate :=
    (value_bind_ok (.read rfl)).2 ⟨cfg, hcfg, (value_bind_ok (only_effectiveLimits cfg _)).2 ⟨limits, hlimits, rfl⟩⟩
  obtain ⟨_, t, hstep, h⟩ := eval_bind_ok.1 h
  rw [eval_reject] at hstep
  obtain ⟨-, rfl⟩ := Prod.mk.inj hstep
  obtain ⟨_, t, hstep, h⟩ := eval_bind_ok.1 h
  rw [eval_reject] at hstep
  obtain ⟨-, rfl⟩ := Prod.mk.inj hstep
  obtain ⟨_, t, hstep, h⟩ := eval_bind_ok.1 h
  rw [eval_reject] at hstep
  obtain ⟨-, rfl⟩ := Prod.mk.inj hstep
  obtain ⟨found, t, hstep, h⟩ := eval_bind_ok.1 h
  rw [eval_onComments (only_resolveTarget target)] at hstep
  obtain ⟨hfound, rfl⟩ := Prod.mk.inj hstep
  obtain ⟨row, t, hstep, h⟩ := eval_bind_ok.1 h
  rw [eval_askComment] at hstep
  cases h
  refine ⟨identity, found, limits.canModerate, ?_⟩
  simp only [answerComment] at hstep
  split at hstep
  · split at hstep
    · split at hstep
      · rename_i comments hinsert
        cases hstep
        exact ⟨comments, ⟨value_commentIdentity hidentity, hfound, hmoderates⟩, hinsert, rfl, rfl⟩
      · cases hstep
    · cases hstep
  · cases hstep

/-- **Who writes a comment finds it first on the first page**, as it was answered, and can delete it. -/
theorem created_first (hs : s.Ordered)
    (h : eval answerComment (create env caller target input) s = (.ok (.created view), s')) :
    view.canDelete = true ∧ ∃ shown, eval answerComment (list env caller target none) s' = (.ok (.listed shown), s') ∧
      shown.comments.head? = some view := by
  obtain ⟨identity, found, canModerate, comments, hasks, hinsert, rfl, rfl⟩ := created_of_eval h
  have hlist := @eval_list env caller target { s.skipId with comments := comments } _ _ _ hasks none
  refine ⟨by simp [viewComment, CommentWorld.withAuthor, CommentWorld.newRow], _, hlist, ?_⟩
  have habout := @about_insert s { s.skipId with comments := comments } _ _ _ hs hinsert found.commented
  rw [if_pos rfl] at habout
  unfold listing
  rw [habout]
  rfl

/-- The state in which the paste has been made. -/
def pastedWorld : CommentWorld := (played (CommentWorld.empty, []) (commented.take 2)).shared.1

theorem ordered_pastedWorld : pastedWorld.Ordered where
  next := by decide
  ids _ hmem := absurd hmem List.not_mem_nil
  times _ hmem := absurd hmem List.not_mem_nil

theorem created_first_pastedWorld : firstView.canDelete = true ∧
    ∃ shown, eval answerComment (list .plain anonymous (.paste coreA.val) none) commentedWorld =
      (.ok (.listed shown), commentedWorld) ∧ shown.comments.head? = some firstView :=
  @created_first .plain anonymous (.paste coreA.val) ['h', 'i'] pastedWorld commentedWorld firstView ordered_pastedWorld
    (by rfl)

end Create

/-! ## Who reads all pages -/

/-- Something is done that deletes no comment about the subject. -/
def Aside (mayFail : CommentOp → Prop) (subject : Subject) (s s' : CommentWorld) : Prop :=
  ∃ (op : CommentOp) (r : op.Res), (∀ comment ∈ s.about subject, op ≠ .deleteComment comment.id) ∧
    execComment mayFail s op r s'

theorem aside_about {mayFail : CommentOp → Prop} {subject : Subject} {s s' : CommentWorld} (hs : s.Ordered)
    (h : ReflTransGen (Aside mayFail subject) s s') : s'.Ordered ∧ s.about subject <:+ s'.about subject := by
  induction h with
  | refl => exact ⟨hs, List.suffix_refl _⟩
  | tail _ hstep ih =>
    obtain ⟨op, r, hop, hexec⟩ := hstep
    exact ⟨exec_ordered hexec ih.1, ih.2.trans (exec_about hexec ih.1 hop)⟩

section Reader

variable {env : Env} {caller : Caller} {target : CommentTarget} {subject : Subject} {s : CommentWorld} {n : ℕ}
  {shown : CommentsPage}

/-- The pages of a request are those of the comments about what it names. -/
theorem listed_page (hnames : Names target subject) (hn : (50 * n : ℤ) ≤ 2 ^ 63 - 1)
    (h : eval answerComment (list env caller target (some (n + 1))) s = (.ok (.listed shown), s)) :
    ∃ view : Comment → CommentView, (∀ comment, (view comment).id = comment.id ∧ (view comment).body = comment.body) ∧
      (⟨shown.comments, shown.hasNext⟩ : Page CommentView) = (pageOf 50 n (s.about subject)).map view := by
  obtain ⟨-, identity, found, canModerate, hasks, rfl⟩ := listed_of_eval h
  have hfound := (names_of_value hasks.what).unique hnames
  have hoffset : (pageOffset (some (n + 1 : ℤ))).toNat = 50 * n := by
    unfold pageOffset pageNumber
    rw [Option.getD_some]
    omega
  refine ⟨fun comment => viewComment (s.withAuthor comment) identity found.ownerId canModerate, fun _ => ⟨rfl, rfl⟩, ?_⟩
  unfold listing pageOf
  rw [hoffset, hfound]

/-- **A reader misses no comment that was there at first.**  Somebody reads the comments about something page by page,
as long as there is a next page, while anything else goes on between one page and the next, faults included, but that
a comment about it is deleted.  Then every comment that was there when the first page was read has been on one of the
pages. -/
theorem reader_misses_nothing {mayFail : CommentOp → Prop} {states : ℕ → CommentWorld} {pages : ℕ → CommentsPage}
    {last : ℕ} (hs : (states 0).Ordered) (hnames : Names target subject)
    (hpages : ∀ n ≤ last, eval answerComment (list env caller target (some (n + 1))) (states n) =
      (.ok (.listed (pages n)), states n))
    (haside : ∀ n < last, ReflTransGen (Aside mayFail subject) (states n) (states (n + 1)))
    (hnext : ∀ n < last, (pages n).hasNext = true) (hlast : (pages last).hasNext = false)
    {comment : Comment} (hmem : comment ∈ (states 0).about subject) :
    ∃ n ≤ last, ∃ view ∈ (pages n).comments, view.id = comment.id ∧ view.body = comment.body := by
  have hordered : ∀ n ≤ last, (states n).Ordered := by
    intro n
    induction n with
    | zero => exact fun _ => hs
    | succ n ih => exact fun hn => (aside_about (ih (by omega)) (haside n hn)).1
  -- no page that is reached is so far away that its offset is cut off
  have hnear : ∀ n ≤ last, (50 * n : ℤ) ≤ 2 ^ 63 - 1 := by
    intro n
    induction n with
    | zero => exact fun _ => by norm_num
    | succ n ih =>
      intro hn
      obtain ⟨view, -, hpage⟩ := listed_page hnames (ih (by omega)) (hpages n (by omega))
      have hmore : (pageOf 50 n ((states n).about subject)).hasNext = true :=
        (congrArg Page.hasNext hpage).symm.trans (hnext n hn)
      have hlength := length_about_le (hordered n (by omega)) subject
      rw [hasNext_pageOf] at hmore
      omega
  have hpage := fun n hn => listed_page hnames (hnear n hn) (hpages n hn)
  have hend : (pageOf 50 last ((states last).about subject)).hasNext = false := by
    obtain ⟨view, -, hlastPage⟩ := hpage last le_rfl
    exact (congrArg Page.hasNext hlastPage).symm.trans hlast
  obtain ⟨n, hn, hseen⟩ := seen_of_grows
    (fun n hn => (aside_about (hordered n hn.le) (haside n hn)).2) hend hmem
  obtain ⟨view, hview, heq⟩ := hpage n hn
  have hcomments : (pages n).comments = _ := congrArg Page.rows heq
  refine ⟨n, hn, view comment, ?_, hview comment⟩
  rw [hcomments]
  exact List.mem_map_of_mem hseen

/-- The comments on a paste that has 51. -/
def manyComments : List Comment :=
  (List.range 51).map fun n => ⟨51 - (n : ℕ), .inl (.paste coreA), some 1, ['h', 'i'], 0⟩

def discussed : CommentWorld :=
  { pastedWorld with comments := ⟨manyComments, by unfold UniqueOn; decide⟩, nextId := 52 }

theorem ordered_discussed : discussed.Ordered where
  next := by decide
  ids := by
    intro comment hmem
    obtain ⟨n, hn, rfl⟩ := List.mem_map.1 hmem
    have hlt := List.mem_range.1 hn
    refine ⟨?_, ?_, ?_⟩
    · show (1 : ℤ) ≤ 51 - n
      omega
    · show (51 - n : ℤ) ≤ 2 ^ 63 - 1
      omega
    · show (51 - n : ℤ) < 52
      omega
  times := by
    intro comment hmem
    obtain ⟨n, -, rfl⟩ := List.mem_map.1 hmem
    exact le_rfl

/-- Another comment is written before the page is turned. -/
def discussing : ℕ → CommentWorld
  | 0 => discussed
  | _ => (answerComment discussed (.insertComment (.inl (.paste coreA)) 1 ['o', 'h'])).2

/-- What a request for a page is answered. -/
def pageAt (n : ℕ) : CommentsPage :=
  match (eval answerComment (list .plain anonymous (.paste coreA.val) (some (n + 1))) (discussing n)).1 with
  | .ok (.listed shown) => shown
  | _ => ⟨[], 0, false⟩

theorem reader_misses_nothing_discussing :
    ∃ n ≤ 1, ∃ view ∈ (pageAt n).comments, view.id = 1 ∧ view.body = ['h', 'i'] := by
  refine @reader_misses_nothing .plain anonymous (.paste coreA.val) (.inl (.paste coreA)) (fun _ => False) discussing
    pageAt 1 ordered_discussed (stripToCore_core coreA).symm ?_ ?_ ?_ (by rfl) firstComment ?_
  · intro n hn
    rcases Nat.le_one_iff_eq_zero_or_eq_one.1 hn with rfl | rfl
    · rfl
    · rfl
  · intro n hn
    obtain rfl : n = 0 := by omega
    exact .single ⟨.insertComment (.inl (.paste coreA)) 1 ['o', 'h'], _, nofun, exec_answerComment _ _ _⟩
  · intro n hn
    obtain rfl : n = 0 := by omega
    rfl
  · rw [mem_about]
    exact ⟨List.mem_map.2 ⟨50, List.mem_range.2 (by decide), rfl⟩, rfl⟩

/-- The first comment is on the second page, with one that has been on the first. -/
example : (pageAt 1).comments.map CommentView.id = [2, 1] := rfl

/-- **A reader reads every comment once, the newest first**, while nothing is written: who turns the page as long as
there is a next one is shown the comments about what is named in their order, each of them on one page. -/
theorem reader_reads_once {pages : ℕ → CommentsPage} (hs : s.Ordered) (hnames : Names target subject)
    (hpages : ∀ n ≤ (s.about subject).length / 50,
      eval answerComment (list env caller target (some (n + 1))) s = (.ok (.listed (pages n)), s)) :
    follow (fun n => ⟨(pages n).comments.map CommentView.id, (pages n).hasNext⟩) ((s.about subject).length / 50) 0 =
      (s.about subject).map Comment.id := by
  have hlength := length_about_le hs subject
  have hpage : ∀ n, 0 ≤ n → n ≤ 0 + (s.about subject).length / 50 →
      (⟨(pages n).comments.map CommentView.id, (pages n).hasNext⟩ : Page ℤ) =
        pageOf 50 n ((s.about subject).map Comment.id) := by
    intro n _ hn
    rw [Nat.zero_add] at hn
    obtain ⟨view, hview, heq⟩ := listed_page hnames (by omega) (hpages n hn)
    obtain ⟨hcomments, hnext⟩ := Page.mk.inj heq
    rw [pageOf_map, hcomments, hnext]
    unfold Page.map
    rw [List.map_map]
    exact congrArg (fun ids => (⟨ids, _⟩ : Page ℤ)) (List.map_congr_left fun comment _ => (hview comment).1)
  have henough : ((s.about subject).map Comment.id).length ≤ 50 * (0 + (s.about subject).length / 50 + 1) := by
    rw [List.length_map]
    omega
  rw [follow_congr hpage, follow_pageOf henough]
  rfl

/-- What a request for a page is answered, while nothing is written. -/
def stillPage (n : ℕ) : CommentsPage :=
  match (eval answerComment (list .plain anonymous (.paste coreA.val) (some (n + 1))) discussed).1 with
  | .ok (.listed shown) => shown
  | _ => ⟨[], 0, false⟩

theorem reader_reads_once_discussed :
    follow (fun n => ⟨(stillPage n).comments.map CommentView.id, (stillPage n).hasNext⟩) 1 0 =
      (List.range 51).map fun n => (51 - n : ℤ) := by
  refine (@reader_reads_once .plain anonymous (.paste coreA.val) (.inl (.paste coreA)) discussed stillPage
    ordered_discussed (stripToCore_core coreA).symm ?_).trans rfl
  intro n hn
  rcases Nat.le_one_iff_eq_zero_or_eq_one.1 hn with rfl | rfl
  · rfl
  · rfl

end Reader

end Comments
end Server
end Uwuubox
