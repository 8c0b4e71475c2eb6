import Uwuubox.Server.Bootstrap
import Uwuubox.Server.CommentRights

/-!
# Comments in every run

Comments are not removed with what they are about: a file or a paste that is removed leaves its comments behind, under
its core.

* `exec_comments` — what one operation does to the table.
* `CommentTold` — the runs in which requests carry what they have been told; `commentTold_once` — cores are claimed
  before they are used in these runs, too; `commentTold_holds` — what requests have been told holds.
* `comments_of_items` — **no file or paste starts with comments**: those about an item have been written after its row
  was inserted, and no other item gets its core.
* `comment_removed` — **a comment stays until somebody removes it who may**, against the row as it is.
* `orphans_kept` — **the comments about what is gone stay as they are**: no request that comes after can delete one.
-/

namespace Uwuubox
namespace Server
namespace Comments

open Dedupe Storage Table Fallible

/-! ## One operation -/

/-- The ids of the rows have been taken from the sequence. -/
def CommentWorld.Fresh (s : CommentWorld) : Prop := ∀ comment ∈ s.comments, comment.id < s.nextId

section Exec

variable {mayFail : CommentOp → Prop} {s s' : CommentWorld} {op : CommentOp} {r : op.Res}

/-- **What one operation does to the comments**: nothing, or it inserts a row with the next id, or it deletes the row
with an id. -/
theorem exec_comments (h : execComment mayFail s op r s') :
    s'.comments = s.comments ∧ s.nextId ≤ s'.nextId ∨
    (∃ subject authorId body, op = .insertComment subject authorId body ∧ s'.nextId = s.nextId + 1 ∧
      s.comments.insert? (s.newRow subject authorId body) = some s'.comments) ∨
    ∃ id, op = .deleteComment id ∧ s'.nextId = s.nextId ∧
      s'.comments = s.comments.delete fun comment => comment.id = id := by
  have hskip : s.nextId ≤ s.skipId.nextId := le_add_of_nonneg_right zero_le_one
  cases op with
  | server op =>
    obtain ⟨w, -, rfl⟩ := h
    exact .inl ⟨rfl, le_rfl⟩
  | insertComment subject authorId body =>
    rcases h with heq | ⟨-, -, rfl | ⟨-, rfl⟩⟩
    · simp only [answerComment] at heq
      split at heq
      · split at heq
        · split at heq
          · rename_i comments hinsert
            cases heq
            exact .inr (.inl ⟨subject, authorId, body, rfl, rfl, hinsert⟩)
          · cases heq
            exact .inl ⟨rfl, hskip⟩
        · cases heq
          exact .inl ⟨rfl, hskip⟩
      · cases heq
        exact .inl ⟨rfl, le_rfl⟩
    · exact .inl ⟨rfl, le_rfl⟩
    · exact .inl ⟨rfl, hskip⟩
  | deleteComment id =>
    rcases h with heq | ⟨-, -, rfl | ⟨hid, -⟩⟩
    · cases heq
      exact .inr (.inr ⟨id, rfl, rfl, rfl⟩)
    · exact .inl ⟨rfl, le_rfl⟩
    · cases hid
  | commentsAbout _ _ | findComment _ =>
    rcases h with heq | ⟨-, -, rfl | ⟨hid, -⟩⟩
    · cases heq
      exact .inl ⟨rfl, le_rfl⟩
    · exact .inl ⟨rfl, le_rfl⟩
    · cases hid

/-- The statements about comments leave the rest of the database alone. -/
theorem exec_server (h : execComment mayFail s op r s') (hop : ∀ op', op ≠ .server op') : s'.server = s.server := by
  have hsame : (answerComment s op).2.server = s.server := by
    cases op with
    | server op => exact absurd rfl (hop op)
    | insertComment subject authorId body =>
      simp only [answerComment]
      split
      · split
        · split <;> rfl
        · rfl
      · rfl
    | _ => rfl
  have hcases : (r, s') = answerComment s op ∨
      mayFail op ∧ (∃ e, r = .error e) ∧ (s' = s ∨ op.takesId = true ∧ s' = s.skipId) := by
    cases op with
    | server op => exact absurd rfl (hop op)
    | _ => exact h
  rcases hcases with heq | ⟨-, -, rfl | ⟨-, rfl⟩⟩
  · rw [← heq] at hsame
    exact hsame
  · rfl
  · rfl

theorem exec_fresh (h : execComment mayFail s op r s') (hs : s.Fresh) : s'.Fresh := by
  rcases exec_comments h with ⟨hsame, hle⟩ | ⟨subject, authorId, body, -, hnext, hinsert⟩ | ⟨id, -, hnext, hdelete⟩
  · intro comment hmem
    rw [hsame] at hmem
    exact lt_of_lt_of_le (hs comment hmem) hle
  · intro comment hmem
    rw [hnext]
    rcases (Keyed.mem_insert? hinsert).1 hmem with rfl | hmem
    · exact lt_add_one _
    · exact lt_trans (hs comment hmem) (lt_add_one _)
  · intro comment hmem
    rw [hdelete] at hmem
    rw [hnext]
    exact hs comment (Keyed.mem_delete.1 hmem).1

/-- A comment that is found has been there. -/
theorem exec_findComment {id : ℤ} {comment : Comment}
    (h : execComment mayFail s (.findComment id) (.ok (some comment)) s') :
    s' = s ∧ comment ∈ s.comments ∧ comment.id = id := by
  rcases h with heq | ⟨-, ⟨e, herr⟩, -⟩
  · obtain ⟨hfound, rfl⟩ := Prod.mk.inj heq
    exact ⟨rfl, Keyed.mem_of_find? (Except.ok.inj hfound).symm⟩
  · cases herr

/-- Answers tell the truth. -/
theorem exec_commentTells (h : execComment mayFail s op r s') : CommentTells op r := by
  unfold CommentTells
  split
  · obtain ⟨w, hexec, -⟩ := h
    exact exec_matches hexec
  · exact (exec_findComment h).2.2
  · trivial

end Exec

/-! ## The history -/

/-- Log the files and pastes that are inserted. -/
def recordComment (inserted : Inserted) : (op : CommentOp) → op.Res → Inserted
  | .server op, r => recordItem inserted op r
  | _, _ => inserted

/-- The state of the server, with the history. -/
def items (h : CommentWorld × Inserted) : World × Inserted := (h.1.server, h.2)

/-- Cores are claimed before they are used. -/
def OnceItems (h : CommentWorld × Inserted) (claims : Multiset Core) : Prop := Once (items h) claims

section Logged

variable {mayFail : CommentOp → Prop} {h h' : CommentWorld × Inserted} {others : Multiset Core}

theorem logged_server {op : Op} {r : op.Res}
    (hexec : logged recordComment (execComment mayFail) h (.server op) r h') :
    logged recordItem (exec fun op => mayFail (.server op)) (items h) op r (items h') := by
  obtain ⟨⟨w, hw, hserver⟩, hlog⟩ := hexec
  refine ⟨?_, hlog⟩
  unfold items
  rw [hserver]
  exact hw

/-- A statement about comments changes nothing else. -/
theorem logged_comments {op : CommentOp} {r : op.Res}
    (hexec : logged recordComment (execComment mayFail) h op r h') (hop : ∀ op', op ≠ .server op') :
    items h' = items h := by
  have hserver := exec_server hexec.1 hop
  have hlog : h'.2 = h.2 := by
    refine hexec.2.trans ?_
    cases op with
    | server op => exact absurd rfl (hop op)
    | _ => rfl
  unfold items
  rw [hserver, hlog]

/-- The history only grows. -/
theorem logged_grows {op : CommentOp} {r : op.Res}
    (hexec : logged recordComment (execComment mayFail) h op r h') {item : Item} (hitem : item ∈ h.2) :
    item ∈ h'.2 := by
  cases op with
  | server op =>
    rw [hexec.2]
    exact List.mem_append_right _ hitem
  | _ =>
    rw [hexec.2]
    exact hitem

/-! ## Cores are claimed before they are used -/

/-- The claim after an answer. -/
def CommentOp.claimAfter (claim : Option Core) : (op : CommentOp) → op.Res → Option Core
  | .server op, r => op.claimAfter claim r
  | _, _ => claim

/-- What requests claim and insert, when there are comments, too. -/
def commentClaims : Protocol (Option Core) CommentOp CommentOp.Res where
  may claim
    | .server op => claimProtocol.may claim op
    | _ => True
  next claim op r claim' := CommentTells op r ∧ claim' = op.claimAfter claim r

theorem once_execComment {op : CommentOp} {r : op.Res} {claim : Option Core} (hmay : commentClaims.may claim op)
    (hw : OnceItems h (claimed claim + others))
    (hexec : logged recordComment (execComment mayFail) h op r h') :
    ∃ claim', commentClaims.next claim op r claim' ∧ OnceItems h' (claimed claim' + others) := by
  have htells := exec_commentTells hexec.1
  by_cases hop : ∃ op', op = .server op'
  · obtain ⟨op, rfl⟩ := hop
    obtain ⟨claim', hnext, honce⟩ := once_exec hmay hw (logged_server hexec)
    exact ⟨claim', ⟨htells, hnext⟩, honce⟩
  · have hkept : op.claimAfter claim r = claim := by
      cases op with
      | server op => exact absurd ⟨op, rfl⟩ hop
      | _ => rfl
    refine ⟨claim, ⟨htells, hkept.symm⟩, ?_⟩
    unfold OnceItems
    rw [logged_comments hexec fun op' heq => hop ⟨op', heq⟩]
    exact hw

end Logged

/-- Every request inserts rows with claimed cores only. -/
theorem serveComment_claims (env : Env) (req : CommentRequest) :
    (serveComment env req).Obeys commentClaims (fun _ _ => True) none := by
  by_cases hother : ∃ other, req = .other other
  · obtain ⟨req, rfl⟩ := hother
    refine (Prog.obeys_bind _ _ _).2 ((Prog.Obeys.interp ?_ (serveAuth_claims env req)).mono fun _ _ _ => trivial)
    exact fun claim op hmay => ⟨hmay, fun r claim' hnext => hnext.2⟩
  · refine (Prog.Obeys.simulate (fun _ _ => True) ?_ ?_ (justified_serveComment env req fun _ => True) trivial).mono
      fun _ _ _ => trivial
    · intro _ claim op _ hop
      cases op with
      | server op =>
        rcases hop with harea | hother'
        · exact may_of_within (S := []) ⟨List.not_mem_nil, List.not_mem_nil⟩ claim (within_of_none harea)
        · exact absurd hother' hother
      | _ => trivial
    · intro _ claim op r claim' _ _ hnext
      exact ⟨(), ⟨hnext.1, fun _ _ => trivial⟩, trivial⟩

/-! ## Runs -/

/-- What a fact says of the state, and of the items that there have been. -/
def CommentFact.Holds (h : CommentWorld × Inserted) : CommentFact → Prop
  | shown x => x.Holds (items h)
  | said comment => comment.id < h.1.nextId ∧ ∀ row ∈ h.1.comments, row.id = comment.id → row = comment

section Facts

variable {mayFail : CommentOp → Prop} {h h' : CommentWorld × Inserted} {op : CommentOp} {r : op.Res}
  {fact : CommentFact}

/-- Facts hold when they are shown. -/
theorem commentHolds_new (honce : OnceItems h 0) (hfresh : h.1.Fresh)
    (hexec : logged recordComment (execComment mayFail) h op r h') (hfact : fact ∈ op.facts r) : fact.Holds h' := by
  unfold CommentOp.facts at hfact
  split at hfact
  · obtain ⟨x, hx, rfl⟩ := List.mem_map.1 hfact
    exact shownHolds_new honce (logged_server hexec) hx
  · rename_i id comment
    cases List.mem_singleton.1 hfact
    obtain ⟨hsame, hmem, -⟩ := exec_findComment hexec.1
    unfold CommentFact.Holds
    rw [hsame]
    exact ⟨hfresh comment hmem, fun row hrow hid => Keyed.eq_of_col hrow hmem hid⟩
  · exact absurd hfact List.not_mem_nil

/-- Facts stay true: no other comment gets the id of one that has been shown. -/
theorem commentHolds_kept (honce : OnceItems h' 0)
    (hexec : logged recordComment (execComment mayFail) h op r h') (hfact : fact.Holds h) : fact.Holds h' := by
  cases fact with
  | shown x =>
    by_cases hop : ∃ op', op = .server op'
    · obtain ⟨op, rfl⟩ := hop
      exact shownHolds_kept honce (logged_server hexec) hfact
    · unfold CommentFact.Holds
      rw [logged_comments hexec fun op' heq => hop ⟨op', heq⟩]
      exact hfact
  | said comment =>
    obtain ⟨hlt, hrow⟩ := hfact
    rcases exec_comments hexec.1 with ⟨hsame, hle⟩ | ⟨subject, authorId, body, -, hnext, hinsert⟩ |
      ⟨id, -, hnext, hdelete⟩
    · refine ⟨lt_of_lt_of_le hlt hle, ?_⟩
      rw [hsame]
      exact hrow
    · refine ⟨hnext ▸ lt_trans hlt (lt_add_one _), fun row hmem hid => ?_⟩
      rcases (Keyed.mem_insert? hinsert).1 hmem with rfl | hmem
      · -- the id of a new row is the next one
        exact absurd hid hlt.ne'
      · exact hrow row hmem hid
    · refine ⟨hnext ▸ hlt, fun row hmem hid => ?_⟩
      rw [hdelete] at hmem
      exact hrow row (Keyed.mem_delete.1 hmem).1 hid

end Facts

/-- An instance without comments. -/
def CommentWorld.empty : CommentWorld := ⟨World.empty, .empty, 1⟩

/-- The requests, each with what it has been told. -/
abbrev CommentPool :=
  Pool (CommentWorld × Inserted) (CommentRequest × Multiset CommentFact) CommentOp CommentOp.Res CommentOutcome

/-- One step of a run in which requests carry what they have been told. -/
abbrev CommentStep (env : Env) (mayFail : CommentOp → Prop) : CommentPool → CommentPool → Prop :=
  Tracked.Step (Tracked.learn CommentOp.facts) (fun _ _ _ _ => True) (fun _ _ => True) (serveComment env)
    (logged recordComment (execComment mayFail))

/-- The runs in which requests carry what they have been told, and may end anywhere. -/
def CommentTold (env : Env) (mayFail : CommentOp → Prop) (h₀ : CommentWorld × Inserted) (p : CommentPool) : Prop :=
  Tracked.Reachable (Tracked.learn CommentOp.facts) (fun _ _ _ _ => True) (fun _ _ => True) (serveComment env)
    (logged recordComment (execComment mayFail)) h₀ p

/-- What every comment is: a proper one, about an item that there has been. -/
def Rooted (h : CommentWorld × Inserted) : Prop :=
  ∀ comment ∈ h.1.comments, Proper comment.body ∧ ∀ item, comment.subject = .inl item → item ∈ h.2

/-- **The invariant.** -/
structure Sound (h : CommentWorld × Inserted) : Prop where
  once : OnceItems h 0
  fresh : h.1.Fresh
  rooted : Rooted h

theorem sound_empty : Sound (CommentWorld.empty, []) where
  once := once_empty
  fresh _ hmem := absurd hmem List.not_mem_nil
  rooted _ hmem := absurd hmem List.not_mem_nil

/-! ### One comment -/

/-- An operation, with the log. -/
def answerOnce (h : CommentWorld × Inserted) (op : CommentOp) : op.Res × (CommentWorld × Inserted) :=
  ((answerComment h.1 op).1, ((answerComment h.1 op).2, recordComment h.2 op (answerComment h.1 op).1))

/-- The requests, from a state. -/
def played (h₀ : CommentWorld × Inserted) (reqs : List (CommentRequest × ℕ)) : CommentPool :=
  Tracked.play (Tracked.learn CommentOp.facts) (serveComment .plain) (fun _ => answerOnce) h₀ (Tracked.inTurn reqs)

/-- The next operation of the last request. -/
def CommentPool.next (p : CommentPool) : CommentPool :=
  Tracked.turn (Tracked.learn CommentOp.facts) (serveComment .plain) (fun _ => answerOnce) p (.act 0 ())

theorem told_played (h₀ : CommentWorld × Inserted) (reqs : List (CommentRequest × ℕ)) :
    CommentTold .plain (fun _ => False) h₀ (played h₀ reqs) :=
  Tracked.reachable_inTurn (fun h op => ⟨exec_answerComment _ h.1 op, rfl⟩) h₀ reqs

theorem step_next {p : CommentPool} {req : CommentRequest} {g : Multiset CommentFact} {op : CommentOp}
    {k : op.Res → Prog CommentOp CommentOp.Res CommentOutcome} (hget : p.threads[0]? = some ((req, g), .call op k)) :
    CommentStep .plain (fun _ => False) p p.next :=
  Tracked.act_step hget trivial ⟨exec_answerComment _ _ _, rfl⟩

/-- Kaz registers, somebody makes a paste, and Kaz writes a comment about it. -/
def commented : List (CommentRequest × ℕ) :=
  [(.other (.served (registers ['k', 'a', 'z'] 1).1), 4), (.other (.served (pasteRequest fun _ => coreA)), 6),
    (.create anonymous (.paste coreA.val) ['h', 'i'], 8)]

/-- The comment. -/
def firstComment : Comment := ⟨1, .inl (.paste coreA), some 1, ['h', 'i'], 0⟩

/-- The paste is deleted with its token. -/
def orphaned : List (CommentRequest × ℕ) :=
  commented ++ [(.other (.served (.deletePaste anonymous coreA.val (some []))), 4)]

/-- Another paste is about to be made. -/
def secondPaste : CommentPool :=
  played (CommentWorld.empty, []) (orphaned ++ [(.other (.served (pasteRequest fun _ => coreB)), 5)])

/-- The comment is about to be deleted. -/
def deletesComment : CommentPool := played (CommentWorld.empty, []) (commented ++ [(.delete anonymous 1, 6)])

/-- Too late. -/
def deletesOrphan : CommentPool := played (played (CommentWorld.empty, []) orphaned).shared [(.delete anonymous 1, 6)]

section Runs

variable {env : Env} {mayFail : CommentOp → Prop} {h₀ : CommentWorld × Inserted} {p q : CommentPool}

/-- Cores are claimed before they are used. -/
theorem commentTold_once (h₀sound : Sound h₀) (hp : CommentTold env mayFail h₀ p) : OnceItems p.shared 0 := by
  obtain ⟨ts, hreach, -⟩ := hp.of_shares
  have howns : ∀ req, (serveComment env req).Owns OnceItems (logged recordComment (execComment mayFail))
      (fun _ claims => ∃ claim, claims = claimed claim ∧ True) 0 :=
    fun req => (serveComment_claims env req).owns fun _ _ _ _ _ _ hmay hw hexec => once_execComment hmay hw hexec
  obtain ⟨gs, -, hw⟩ := Pool.ledger h₀sound.once howns (fun _ _ _ _ hw => Once.drop hw) hreach
  rw [← add_zero gs.sum] at hw
  exact Once.drop hw

theorem commentTold_fresh (h₀sound : Sound h₀) (hp : CommentTold env mayFail h₀ p) : p.shared.1.Fresh := by
  obtain ⟨ts, hreach, -⟩ := hp.of_shares
  exact @Pool.Reachable.keeps _ _ _ _ _ _ _ _ _ (fun h => h.1.Fresh) h₀sound.fresh
    (fun _ _ _ _ hexec hs => exec_fresh hexec.1 hs) _ hreach

/-- **What requests have been told holds.** -/
theorem commentTold_holds (h₀sound : Sound h₀) (hp : CommentTold env mayFail h₀ p) :
    ∀ t ∈ p.threads, ∀ fact ∈ t.1.2, fact.Holds p.shared :=
  hp.holds (fun h => OnceItems h 0 ∧ h.1.Fresh) (fun h fact => fact.Holds h)
    (fun _ hq => ⟨commentTold_once h₀sound hq, commentTold_fresh h₀sound hq⟩)
    (fun _ _ _ _ hK _ hexec _ hfact => commentHolds_new hK.1 hK.2 hexec hfact)
    fun _ _ _ _ _ _ hK hexec hfact => commentHolds_kept hK.1 hexec hfact

/-- What a request is about to perform is allowed. -/
theorem commentTold_allowed (hp : CommentTold env mayFail h₀ p) {req : CommentRequest} {g : Multiset CommentFact}
    {op : CommentOp} {k : op.Res → Prog CommentOp CommentOp.Res CommentOutcome}
    (ht : ((req, g), .call op k) ∈ p.threads) : Allowed env req (· ∈ g) op :=
  hp.justified (fun _ _ _ _ hexec => exec_commentTells hexec.1) (justified_serveComment env) ht

theorem commentTold_rooted (h₀sound : Sound h₀) (hp : CommentTold env mayFail h₀ p) : Rooted p.shared := by
  induction hp with
  | refl => exact h₀sound.rooted
  | @tail p q hprev hlast ih =>
    cases hlast with
    | spawn => exact ih
    | leave => exact ih
    | @act h h' pre post req g op k r _ hexec =>
      have hold : ∀ comment ∈ h.1.comments,
          Proper comment.body ∧ ∀ item, comment.subject = .inl item → item ∈ h'.2 := fun comment hmem =>
        ⟨(ih comment hmem).1, fun item hitem => logged_grows hexec ((ih comment hmem).2 item hitem)⟩
      rcases exec_comments hexec.1 with ⟨hsame, -⟩ | ⟨subject, authorId, body, rfl, -, hinsert⟩ | ⟨id, -, -, hdelete⟩
      · unfold Rooted
        rw [hsame]
        exact hold
      · intro comment hmem
        rcases (Keyed.mem_insert? hinsert).1 hmem with rfl | hmem
        · obtain ⟨hproper, hseen, -⟩ := commentTold_allowed hprev List.mem_append_cons_self
          refine ⟨hproper, ?_⟩
          rintro item rfl
          obtain ⟨guards, hknown⟩ := hseen
          exact logged_grows hexec (commentTold_holds h₀sound hprev _ List.mem_append_cons_self _ hknown).1
        · exact hold comment hmem
      · intro comment hmem
        rw [hdelete] at hmem
        exact hold comment (Keyed.mem_delete.1 hmem).1

/-- **Every run keeps the invariant.** -/
theorem commentTold_sound (h₀sound : Sound h₀) (hp : CommentTold env mayFail h₀ p) : Sound p.shared :=
  ⟨commentTold_once h₀sound hp, commentTold_fresh h₀sound hp, commentTold_rooted h₀sound hp⟩

/-- An item that an operation makes is one that there has not been, and the operation writes no comment. -/
theorem logged_new {h h' : CommentWorld × Inserted} {op : CommentOp} {r : op.Res} (honce : OnceItems h' 0)
    (hexec : logged recordComment (execComment mayFail) h op r h') {item : Item} (hbefore : ¬ h.1.server.Has item)
    (hafter : h'.1.server.Has item) : item ∉ h.2 ∧ h'.1.comments = h.1.comments := by
  by_cases hop : ∃ op', op = .server op'
  · obtain ⟨op, rfl⟩ := hop
    have hserver := logged_server hexec
    refine ⟨fun hlogged => ?_, ?_⟩
    · have hnew := newItem_ne honce hserver hlogged
      exact hbefore (exec_has_of_new hserver.1 hnew hafter)
    · obtain ⟨w, -, hw⟩ := hexec.1
      rw [hw]
  · have hsame := logged_comments hexec fun op' heq => hop ⟨op', heq⟩
    have hserver : h'.1.server = h.1.server := congrArg Prod.fst hsame
    exact absurd (hserver ▸ hafter) hbefore

/-- **No file or paste starts with comments.**  In every run, whatever requests interleave, fail or stop: every comment
has a proper body and is about an item whose row has been inserted before; and when a file or a paste is made, there
are no comments about it, though those about items that are gone are kept. -/
theorem comments_of_items (h₀sound : Sound h₀) (hp : CommentTold env mayFail h₀ p) :
    Rooted p.shared ∧ ∀ q, CommentStep env mayFail p q → ∀ item, ¬ p.shared.1.server.Has item →
      q.shared.1.server.Has item → q.shared.1.about (.inl item) = [] := by
  have hrooted := commentTold_rooted h₀sound hp
  refine ⟨hrooted, fun q hstep item hbefore hafter => ?_⟩
  have honce := commentTold_once h₀sound (hp.tail hstep)
  cases hstep with
  | spawn => exact absurd hafter hbefore
  | leave => exact absurd hafter hbefore
  | @act h h' pre post req g op k r _ hexec =>
    obtain ⟨hlogged, hsame⟩ := logged_new honce hexec hbefore hafter
    have hnone : ∀ comment ∈ h'.1.comments.rows, comment.subject ≠ .inl item := fun comment hmem hsubject =>
      hlogged ((hrooted comment (hsame ▸ hmem)).2 item hsubject)
    show h'.1.about (.inl item) = []
    unfold CommentWorld.about
    rw [List.filter_eq_nil_iff.2 fun comment hmem => by simpa using hnone comment hmem]
    rfl

theorem comments_of_items_secondPaste :
    secondPaste.shared.1.comments.rows = [firstComment] ∧ Rooted secondPaste.shared ∧
      secondPaste.next.shared.1.server.Has (.paste coreB) ∧
      secondPaste.next.shared.1.about (.inl (.paste coreB)) = [] := by
  have hhas : secondPaste.next.shared.1.server.Has (.paste coreB) := ⟨_, List.mem_cons_self, rfl⟩
  obtain ⟨hrooted, hnew⟩ := comments_of_items sound_empty (told_played (CommentWorld.empty, []) _)
    (p := secondPaste)
  refine ⟨rfl, hrooted, hhas, hnew _ (step_next (by rfl)) _ ?_ hhas⟩
  rintro ⟨row, hrow, -⟩
  exact absurd hrow List.not_mem_nil

/-- **A comment stays until somebody removes it who may.**  In every run, whatever requests interleave, fail or stop, a
step leaves a comment as it is, unless it is a step of a request to delete it whose caller has grounds against this
very row: the caller acts for its author, or has been shown what it is about as the property of the account it acts
for, or the role of that account as one that moderates. -/
theorem comment_removed (h₀sound : Sound h₀) (hp : CommentTold env mayFail h₀ p) (hstep : CommentStep env mayFail p q)
    {comment : Comment} (hmem : comment ∈ p.shared.1.comments) :
    comment ∈ q.shared.1.comments ∨
      ∃ caller g, (∃ prog, ((.delete caller comment.id, g), prog) ∈ p.threads) ∧
        MayDelete env (· ∈ g) caller comment := by
  cases hstep with
  | spawn => exact .inl hmem
  | leave => exact .inl hmem
  | @act h h' pre post req g op k r _ hexec =>
    rcases exec_comments hexec.1 with ⟨hsame, -⟩ | ⟨_, _, _, -, -, hinsert⟩ | ⟨id, rfl, -, hdelete⟩
    · exact .inl (hsame ▸ hmem)
    · exact .inl ((Keyed.mem_insert? hinsert).2 (.inr hmem))
    · by_cases hid : comment.id = id
      · subst hid
        obtain ⟨caller, shown, rfl, hsaid, hshown, -, hmay⟩ := commentTold_allowed hp List.mem_append_cons_self
        -- the row that has been shown is the row that is there
        obtain ⟨-, hrow⟩ := commentTold_holds h₀sound hp _ List.mem_append_cons_self _ hsaid
        obtain rfl := hrow comment hmem hshown.symm
        exact .inr ⟨caller, g, ⟨_, List.mem_append_cons_self⟩, hmay⟩
      · refine .inl ?_
        show comment ∈ h'.1.comments
        rw [hdelete]
        exact Keyed.mem_delete.2 ⟨hmem, decide_eq_false hid⟩

theorem comment_removed_deletesComment :
    firstComment ∉ deletesComment.next.shared.1.comments ∧
      (firstComment ∈ deletesComment.next.shared.1.comments ∨
        ∃ caller g, (∃ prog, ((.delete caller 1, g), prog) ∈ deletesComment.threads) ∧
          MayDelete .plain (· ∈ g) caller firstComment) :=
  ⟨List.not_mem_nil, comment_removed sound_empty (told_played (CommentWorld.empty, []) _)
    (step_next (by rfl)) List.mem_cons_self⟩

end Runs

/-! ## Comments that are left behind -/

section Orphans

variable {env : Env} {mayFail : CommentOp → Prop} {h₀ : CommentWorld × Inserted} {p : CommentPool} {item : Item}

/-- The item is gone. -/
structure Gone (item : Item) (h : CommentWorld × Inserted) : Prop where
  sound : OnceItems h 0
  fresh : h.1.Fresh
  logged : item ∈ h.2
  absent : ¬ h.1.server.Has item

/-- An item that is gone does not come back. -/
theorem commentTold_gone (h₀sound : Sound h₀) (hlogged : item ∈ h₀.2) (habsent : ¬ h₀.1.server.Has item)
    (hp : CommentTold env mayFail h₀ p) : Gone item p.shared := by
  induction hp with
  | refl => exact ⟨h₀sound.once, h₀sound.fresh, hlogged, habsent⟩
  | @tail p q hprev hlast ih =>
    have honce := commentTold_once h₀sound (hprev.tail hlast)
    have hfresh := commentTold_fresh h₀sound (hprev.tail hlast)
    cases hlast with
    | spawn => exact ih
    | leave => exact ih
    | act _ hexec =>
      refine ⟨honce, hfresh, logged_grows hexec ih.logged, fun hitem => ?_⟩
      exact (logged_new honce hexec ih.absent hitem).1 ih.logged

/-- The fact does not show the item. -/
def CommentFact.Hides (item : Item) : CommentFact → Prop
  | shown (.fact (.shown other _)) => other ≠ item
  | _ => True

/-- What is shown is there. -/
theorem has_of_shown {h h' : World × Inserted} {mayFail : Op → Prop} {op : Op} {r : op.Res}
    (hexec : logged recordItem (exec mayFail) h op r h') {guards : Guards} (hfact : .shown item guards ∈ op.facts r) :
    h.1.Has item := by
  unfold Op.facts at hfact
  split at hfact
  · simp [Session.facts] at hfact
  · cases List.mem_singleton.1 hfact
  · cases List.mem_singleton.1 hfact
  · cases List.mem_singleton.1 hfact
  · cases List.mem_singleton.1 hfact
  · cases List.mem_singleton.1 hfact
  · have hfind := Except.ok.inj (congrArg Prod.fst (exec_answered hexec.1 rfl))
    obtain ⟨row, hrow, hfile, -⟩ := file?_spec hfind.symm
    cases List.mem_singleton.1 hfact
    rw [hfile]
    exact ⟨row, hrow, rfl⟩
  · have hfind := Except.ok.inj (congrArg Prod.fst (exec_answered hexec.1 rfl))
    have hrow := (paste?_spec hfind.symm).1
    cases List.mem_singleton.1 hfact
    exact ⟨_, hrow, rfl⟩
  · obtain ⟨_, -, hfact⟩ := List.mem_map.1 hfact
    cases hfact
  · obtain ⟨_, -, hfact⟩ := List.mem_map.1 hfact
    cases hfact
  · exact absurd hfact List.not_mem_nil

/-- No answer shows an item that is gone. -/
theorem hides_of_absent {h h' : CommentWorld × Inserted} {op : CommentOp} {r : op.Res}
    (habsent : ¬ h.1.server.Has item) (hexec : logged recordComment (execComment mayFail) h op r h')
    {fact : CommentFact} (hfact : fact ∈ op.facts r) : fact.Hides item := by
  unfold CommentFact.Hides
  split
  · rename_i shown guards
    rintro rfl
    unfold CommentOp.facts at hfact
    split at hfact
    · obtain ⟨x, hx, heq⟩ := List.mem_map.1 hfact
      cases heq
      exact habsent (has_of_shown (logged_server hexec) (mem_shows_fact hx))
    · cases List.mem_singleton.1 hfact
    · exact absurd hfact List.not_mem_nil
  · trivial

/-- No request has seen it. -/
theorem not_seen (h₀sound : Sound h₀) (hlogged : item ∈ h₀.2) (habsent : ¬ h₀.1.server.Has item)
    (hp : CommentTold env mayFail h₀ p) {t : (CommentRequest × Multiset CommentFact) ×
      Prog CommentOp CommentOp.Res CommentOutcome} (ht : t ∈ p.threads) : ¬ Seen (· ∈ t.1.2) (.inl item) := by
  rintro ⟨guards, hknown⟩
  have hhides := hp.holds (Gone item) (fun _ fact => fact.Hides item)
    (fun _ hq => commentTold_gone h₀sound hlogged habsent hq)
    (fun _ _ _ _ hgone _ hexec _ hfact => hides_of_absent hgone.absent hexec hfact)
    (fun _ _ _ _ _ _ _ _ hfact => hfact) t ht _ hknown
  exact hhides rfl

/-- **Comments that are left behind stay as they are.**  Once a file or a paste is gone, no request that comes after can
write a comment about it or delete one, its authors and the moderators included: the comments about it are the same in
every state that is reached. -/
theorem orphans_kept (h₀sound : Sound h₀) (hlogged : item ∈ h₀.2) (habsent : ¬ h₀.1.server.Has item)
    (hp : CommentTold env mayFail h₀ p) {comment : Comment} (hsubject : comment.subject = .inl item) :
    comment ∈ p.shared.1.comments ↔ comment ∈ h₀.1.comments := by
  induction hp with
  | refl => exact Iff.rfl
  | @tail p q hprev hlast ih =>
    rw [← ih]
    cases hlast with
    | spawn => exact Iff.rfl
    | leave => exact Iff.rfl
    | @act h h' pre post req g op k r _ hexec =>
      have hseen := not_seen h₀sound hlogged habsent hprev
        (t := ((req, g), .call op k)) List.mem_append_cons_self
      show comment ∈ h'.1.comments ↔ comment ∈ h.1.comments
      rcases exec_comments hexec.1 with ⟨hsame, -⟩ | ⟨subject, authorId, body, rfl, -, hinsert⟩ | ⟨id, rfl, -, hdelete⟩
      · rw [hsame]
      · obtain ⟨-, hshown, -⟩ := commentTold_allowed hprev List.mem_append_cons_self
        rw [Keyed.mem_insert? hinsert]
        refine or_iff_right ?_
        rintro rfl
        obtain rfl : subject = .inl item := hsubject
        exact hseen hshown
      · obtain ⟨_, shown, -, hsaid, hid, hshown, -⟩ := commentTold_allowed hprev List.mem_append_cons_self
        obtain ⟨-, hrow⟩ := commentTold_holds h₀sound hprev _ List.mem_append_cons_self _ hsaid
        rw [hdelete, Keyed.mem_delete]
        refine and_iff_left_of_imp fun hmem => decide_eq_false fun heq => ?_
        obtain rfl := hrow comment hmem (heq.trans hid.symm)
        exact hseen (hsubject ▸ hshown)

theorem orphans_kept_deletesOrphan : firstComment ∈ deletesOrphan.shared.1.comments := by
  have hsound := commentTold_sound sound_empty (told_played _ orphaned)
  refine (orphans_kept hsound List.mem_cons_self ?_ (told_played _ _) rfl).2 List.mem_cons_self
  rintro ⟨row, hrow, -⟩
  exact absurd hrow List.not_mem_nil

/-- The comment is still there, and its author has been told that it is not. -/
example : deletesOrphan.shared.1.comments.rows = [firstComment] ∧
    deletesOrphan.threads.map Prod.snd = [.ret (.error AppError.notFound)] := ⟨rfl, rfl⟩

end Orphans

end Comments
end Server
end Uwuubox
