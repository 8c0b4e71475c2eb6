import Uwuubox.Server.Comments
import Uwuubox.Server.Shown

/-!
# Who writes and deletes comments

A comment is written about something that the request has been shown, by an account that it acts for; it is deleted by
its author, by who owns what it is about, and by a moderator.

* `CommentFact`, `CommentOp.facts` — what answers show.
* `MayDelete`, `Proper`, `Allowed` — the grounds, as what a request brings and has been told.
* `lawful_create`, `lawful_delete` — the handlers perform no more.
* `justified_serveComment` — **nor does any request.**
-/

namespace Uwuubox
namespace Server
namespace Comments

open Dedupe Storage Table Fallible

/-! ## Facts -/

/-- What a request has been told. -/
inductive CommentFact where
  | shown (x : Shown)
  | said (comment : Comment)

/-- What an answer shows. -/
def CommentOp.facts : (op : CommentOp) → op.Res → List CommentFact
  | .server op, r => (op.shows r).map .shown
  | .findComment _, .ok (some comment) => [.said comment]
  | _, _ => []

/-- What is true of an answer in every state. -/
def CommentTells : (op : CommentOp) → op.Res → Prop
  | .server op, r => Matches op r
  | .findComment id, .ok (some comment) => comment.id = id
  | _, _ => True

/-! ## Grounds -/

section Grounds

variable (env : Env) (known : CommentFact → Prop) (caller : Caller)

/-- What is known of the server. -/
def shownOf : Shown → Prop := fun x => known (.shown x)

/-- Why a caller may delete a comment. -/
inductive MayDelete (comment : Comment) : Prop
  | author {uid : Uuid} : ActsFor (shownOf known) env caller uid → comment.authorId = some uid → MayDelete comment
  | itemOwner {uid : Uuid} {item : Item} {guards : Guards} : ActsFor (shownOf known) env caller uid →
      comment.subject = .inl item → known (.shown (.fact (.shown item guards))) → guards.ownerId = some uid →
      MayDelete comment
  | collectionOwner {uid id : Uuid} : ActsFor (shownOf known) env caller uid → comment.subject = .inr id →
      known (.shown (.collection id uid)) → MayDelete comment
  | moderator {row : User} {role : Role} : FoundAs (shownOf known) env caller row → row.roleId = some role.id →
      known (.shown (.role role)) → role.canModerate = true → MayDelete comment

/-- The request has been shown the subject. -/
def Seen : Subject → Prop
  | .inl item => ∃ guards, known (.shown (.fact (.shown item guards)))
  | .inr id => ∃ ownerId, known (.shown (.collection id ownerId))

end Grounds

/-- The body of a comment: trimmed, not empty, and of at most 2000 characters. -/
def Proper (body : Text) : Prop := trim body = body ∧ body ≠ [] ∧ body.length ≤ 2000

/-- What a request may perform, knowing what it has been told.  A comment about what cannot be shown can neither be
written nor deleted. -/
def Allowed (env : Env) (req : CommentRequest) (known : CommentFact → Prop) : CommentOp → Prop
  | .server op => op.area = none ∨ ∃ other, req = .other other
  | .insertComment subject authorId body => Proper body ∧ Seen known subject ∧
      ∃ caller target input, req = .create caller target input ∧ ActsFor (shownOf known) env caller authorId
  | .deleteComment id => ∃ caller comment, req = .delete caller id ∧ known (.said comment) ∧ comment.id = id ∧
      Seen known comment.subject ∧ MayDelete env known caller comment
  | .commentsAbout _ _ | .findComment _ => True

/-- Knowing what it is told, the handler performs only what is allowed, and returns what `P` accepts. -/
abbrev Lawful {α : Type} (env : Env) (req : CommentRequest) (known : CommentFact → Prop) (P : α → Prop)
    (p : CommentHandler α) : Prop :=
  p.Conforms (Allowed env req known) (fun op r => CommentTells op r ∧ Prog.Known CommentOp.facts known op r) P

section Rules

variable {env : Env} {req : CommentRequest} {known : CommentFact → Prop} {α β : Type} {P : α → Prop} {Q : β → Prop}

/-- A handler of the server that reads, and what it returns. -/
theorem lawful_onComments {p : Handler α} (hp : Only [] p)
    (hP : Ends (displayed (shownOf known)) (fun a _ => P a) p) : Lawful env req known P (onComments p) := by
  have hreads : p.Conforms (fun op => op.area = none) (Displays (shownOf known)) P :=
    .of_parts (Prog.Obeys.weaken hp.run fun op hop => by
      cases harea : op.area with
      | none => rfl
      | some a => exact absurd (hop a harea) List.not_mem_nil) hP
  refine Prog.Obeys.interp ?_ hreads
  intro _ op hop
  refine ⟨.inl hop, fun r _ hr => ⟨hr.1, fun x hx => ?_⟩⟩
  exact hr.2 (.shown x) (List.mem_map_of_mem hx)

/-- A step of the server that reads, and whose value does not matter. -/
theorem lawful_skip {p : Handler α} {f : α → CommentHandler β} (hp : Only [] p)
    (hf : ∀ a, Lawful env req known Q (f a)) : Lawful env req known Q (onComments p >>= f) :=
  Conforms.bind (lawful_onComments hp .trivially) fun a _ => hf a

@[simp] theorem obeys_askComment {Γ : Type} {π : Protocol Γ CommentOp CommentOp.Res} {err : Abort → Γ → Prop} {γ : Γ}
    {op : CommentOp} {fin : op.Val → Γ → Prop} : (askComment op).Obeys π fin err γ ↔ π.may γ op ∧
      ∀ r γ', π.next γ op r γ' →
        (∀ v, r = .ok v → fin v γ') ∧ ∀ e, r = .error e → err (Abort.error (.from' e)) γ' := by
  unfold askComment
  rw [obeys_bind, obeys_perform]
  apply and_congr_right'
  refine forall_congr' fun r => forall_congr' fun γ' => imp_congr_right fun _ => ?_
  cases r with
  | ok v => simp
  | error e => simp

/-- A statement that is allowed. -/
theorem lawful_askComment {op : CommentOp} (h : Allowed env req known op) :
    Lawful env req known (fun v => CommentTells op (.ok v) ∧ ∀ fact ∈ op.facts (.ok v), known fact)
      (askComment op) := by
  refine obeys_askComment.2 ⟨h, fun r _ hr => ⟨?_, fun _ _ => trivial⟩⟩
  rintro v rfl
  exact hr

end Rules

/-! ## What requests are told -/

section Told

variable {env : Env} {known : Shown → Prop} {caller : Caller}

theorem only_commentIdentity : Only [] (commentIdentity env caller) :=
  .bind (.always (only_currentIdentity env caller)) fun _ => .check

theorem told_commentIdentity : Ends (displayed known) (fun identity _ => FoundAs known env caller identity.user)
    (commentIdentity env caller) := by
  refine .always (fun _ => found_currentIdentity) fun found hfound _ => ?_
  refine obeys_check.2 ⟨fun _ _ => trivial, fun identity hcheck => hfound identity ?_⟩
  exact requireScope_ok hcheck

/-- What is known of a target: it has been shown, with its owner. -/
def Resolved (known : Shown → Prop) (target : Target) : Prop :=
  match target.commented with
  | .inl item => ∃ guards, known (.fact (.shown item guards)) ∧ target.ownerId = guards.ownerId
  | .inr id => ∃ ownerId, known (.collection id ownerId) ∧ target.ownerId = some ownerId

theorem Resolved.seen {known : CommentFact → Prop} {target : Target} (h : Resolved (shownOf known) target) :
    Seen known target.commented := by
  obtain ⟨commented, ownerId⟩ := target
  cases commented with
  | inl item =>
    obtain ⟨guards, hshown, -⟩ := h
    exact ⟨guards, hshown⟩
  | inr id =>
    obtain ⟨owner, hshown, -⟩ := h
    exact ⟨owner, hshown⟩

theorem only_resolveTarget (target : CommentTarget) : Only [] (resolveTarget target) := by
  cases target with
  | file core | paste core =>
    exact .bind (.read rfl) fun _ => .bind .orThrow fun _ => .bind (.read rfl) fun _ => .bind .reject fun _ => .pure
  | collection id => exact .bind .orThrow fun _ => .bind (.read rfl) fun _ => .bind .orThrow fun _ => .pure
  | other => exact .throw

/-- What the target of a request can name. -/
def Names : CommentTarget → Subject → Prop
  | .file core, .inl (.file file) => file.val = stripToCore core
  | .paste core, .inl (.paste paste) => paste.val = stripToCore core
  | .collection id, .inr id' => id = some id'
  | _, _ => False

theorem told_resolveTarget (target : CommentTarget) : Ends (displayed known)
    (fun found _ => Resolved known found ∧ Names target found.commented) (resolveTarget target) := by
  cases target with
  | file core =>
    refine Ends.ask (P := fun found => ∀ file, found = some file →
      known (.fact (.shown (.file file.idCore) file.guards)) ∧ file.idCore.val = stripToCore core) ?_ ?_
    · rintro _ _ _ hr file rfl
      exact ⟨hr.2 _ (by simp [Op.shows, Op.facts]), hr.1⟩
    · refine fun found hfound => .orThrow fun file hsome => .skip fun _ => .reject fun _ => .pure fun _ => ?_
      exact ⟨⟨file.guards, (hfound file hsome).1, rfl⟩, (hfound file hsome).2⟩
  | paste core =>
    refine Ends.ask (P := fun found => ∀ paste, found = some paste →
      known (.fact (.shown (.paste paste.idCore) paste.guards)) ∧ paste.idCore.val = stripToCore core) ?_ ?_
    · rintro _ _ _ hr paste rfl
      exact ⟨hr.2 _ (by simp [Op.shows, Op.facts]), hr.1⟩
    · refine fun found hfound => .orThrow fun paste hsome => .skip fun _ => .reject fun _ => .pure fun _ => ?_
      exact ⟨⟨paste.guards, (hfound paste hsome).1, rfl⟩, (hfound paste hsome).2⟩
  | collection id =>
    refine .orThrow fun id hid => Ends.ask (P := fun found => ∀ collection, found = some collection →
      known (.collection collection.id collection.ownerId) ∧ collection.id = id) ?_ ?_
    · rintro _ _ _ hr collection rfl
      exact ⟨hr.2 _ (by simp [Op.shows, Op.rows]), hr.1⟩
    · refine fun found hfound => .orThrow fun collection hsome => .pure fun _ => ?_
      obtain ⟨hknown, rfl⟩ := hfound collection hsome
      exact ⟨⟨collection.ownerId, hknown, rfl⟩, hid⟩
  | other => exact .throw

/-- A request names one thing. -/
theorem Names.unique {target : CommentTarget} {subject subject' : Subject} (h : Names target subject)
    (h' : Names target subject') : subject = subject' := by
  cases target with
  | file supplied =>
    rcases subject with (core | core) | id
    · rcases subject' with (core' | core') | id'
      · rw [Subtype.ext (Eq.trans h (Eq.symm h'))]
      · exact h'.elim
      · exact h'.elim
    · exact h.elim
    · exact h.elim
  | paste supplied =>
    rcases subject with (core | core) | id
    · exact h.elim
    · rcases subject' with (core' | core') | id'
      · exact h'.elim
      · rw [Subtype.ext (Eq.trans h (Eq.symm h'))]
      · exact h'.elim
    · exact h.elim
  | collection supplied =>
    rcases subject with (core | core) | id
    · exact h.elim
    · exact h.elim
    · rcases subject' with (core' | core') | id'
      · exact h'.elim
      · exact h'.elim
      · rw [Option.some.inj (Eq.trans (Eq.symm h) h')]
  | other => exact h.elim

/-- The target of a row is what the row is about. -/
theorem eq_of_names_rowTarget {subject found : Subject} (h : Names (rowTarget subject) found) : found = subject := by
  refine h.unique ?_
  rcases subject with (core | core) | id
  · exact (stripToCore_core core).symm
  · exact (stripToCore_core core).symm
  · rfl

end Told

/-! ## The handlers -/

section Handlers

variable {env : Env} {known : CommentFact → Prop} {caller : Caller}

theorem trim_trim (t : Text) : trim (trim t) = trim t := by
  unfold trim
  have hleft : ((t.dropWhile isWhitespace).rdropWhile isWhitespace).dropWhile isWhitespace =
      (t.dropWhile isWhitespace).rdropWhile isWhitespace := by
    rw [List.dropWhile_eq_self_iff]
    intro hpos
    have hstart := List.rdropWhile_prefix isWhitespace (t.dropWhile isWhitespace)
    have hhead := List.dropWhile_get_zero_not isWhitespace t (lt_of_lt_of_le hpos hstart.length_le)
    rwa [hstart.getElem hpos]
  rw [hleft, List.rdropWhile_idempotent]

theorem only_moderates (identity : Option Identity) : Only [] (moderates identity) := by
  cases identity with
  | none => exact .pure
  | some identity => exact .bind (.read rfl) fun cfg => .bind (only_effectiveLimits cfg _) fun _ => .pure

theorem lawful_create (target : CommentTarget) (input : Text) :
    Lawful env (.create caller target input) known (fun _ => True) (create env caller target input) := by
  refine .bind (lawful_onComments only_commentIdentity told_commentIdentity) fun identity hidentity =>
    lawful_skip (.read rfl) fun cfg => lawful_skip (only_effectiveLimits cfg _) fun limits => .reject fun _ =>
      .reject fun hempty => .reject fun hlong =>
        .bind (lawful_onComments (only_resolveTarget target) (told_resolveTarget target)) fun found hfound =>
          .bind (lawful_askComment ⟨⟨trim_trim input, ?_, not_lt.1 hlong⟩, hfound.1.seen, caller, target, input, rfl,
            hidentity.1⟩) fun _ _ => .pure trivial
  rintro hnil
  exact hempty (List.isEmpty_iff.2 hnil)

theorem lawful_list (target : CommentTarget) (page : Option ℤ) :
    Lawful env (.list caller target page) known (fun _ => True) (list env caller target page) :=
  lawful_skip (.always (only_currentIdentity env caller)) fun identity =>
    lawful_skip (only_resolveTarget target) fun _ => .bind (lawful_askComment trivial) fun _ _ =>
      lawful_skip (only_moderates identity) fun _ => .pure trivial

/-- Who owns the target may delete comments on it. -/
theorem mayDelete_of_owner {comment : Comment} {target : Target} {uid : Uuid}
    (hacts : ActsFor (shownOf known) env caller uid) (hsubject : target.commented = comment.subject)
    (hshown : Resolved (shownOf known) target) (howner : target.ownerId = some uid) :
    MayDelete env known caller comment := by
  obtain ⟨commented, ownerId⟩ := target
  obtain rfl : commented = comment.subject := hsubject
  unfold Resolved at hshown
  cases hcommented : comment.subject with
  | inl item =>
    rw [hcommented] at hshown
    obtain ⟨guards, hknown, heq⟩ := hshown
    exact .itemOwner hacts hcommented hknown (heq.symm.trans howner)
  | inr id =>
    rw [hcommented] at hshown
    obtain ⟨owner, hknown, heq⟩ := hshown
    obtain rfl : owner = uid := Option.some.inj (heq.symm.trans howner)
    exact .collectionOwner hacts hcommented hknown

/-- **A comment is deleted by who may.** -/
theorem lawful_delete (id : ℤ) :
    Lawful env (.delete caller id) known (fun _ => True) (delete env caller id) := by
  refine .bind (lawful_onComments only_commentIdentity told_commentIdentity) fun identity hidentity =>
    .bind (lawful_askComment trivial) fun found hfound => .orThrow fun comment hcomment =>
      .bind (lawful_onComments (only_resolveTarget _) (told_resolveTarget _)) fun target htarget =>
        lawful_skip (.read rfl) fun cfg =>
          .bind (lawful_onComments (only_effectiveLimits cfg _) (told_effectiveLimits cfg identity.user))
            fun limits hlimits => .reject fun hmay => .bind (lawful_askComment ?_) fun _ _ => .reject fun _ =>
              .pure trivial
  subst hcomment
  obtain ⟨hshown, hnames⟩ := htarget
  have hsubject := eq_of_names_rowTarget hnames
  refine ⟨caller, comment, rfl, hfound.2 _ List.mem_cons_self, hfound.1, hsubject ▸ hshown.seen, ?_⟩
  by_cases hauthor : comment.authorId = some identity.user.id
  · exact .author hidentity.1 hauthor
  · by_cases howner : target.ownerId = some identity.user.id
    · exact mayDelete_of_owner hidentity.1 hsubject hshown howner
    · have hmoderates : limits.canModerate = true := by
        by_contra hnot
        exact hmay ⟨hauthor, howner, hnot⟩
      obtain ⟨role, hrole, hknown, hcan⟩ := hlimits hmoderates
      exact .moderator hidentity hrole hknown hcan

end Handlers

/-- **No request performs more than it is allowed**, knowing what it has been told. -/
theorem justified_serveComment (env : Env) (req : CommentRequest) :
    (serveComment env req).Justified CommentTells CommentOp.facts (Allowed env req) := by
  intro known
  cases req with
  | other req =>
    have hany : ∀ (γ : Unit) (op : Op), True → (Prog.perform (CommentOp.server op)).Obeys
        (Prog.justice CommentTells CommentOp.facts (Allowed env (.other req)) known) (fun _ _ => True) γ :=
      fun _ _ _ => ⟨.inr ⟨req, rfl⟩, fun _ _ _ => trivial⟩
    exact (Prog.obeys_bind _ _ _).2 ((Prog.Obeys.interp hany (Prog.Obeys.trivially _)).mono fun _ _ _ => trivial)
  | create caller target input => exact (lawful_create target input).run
  | list caller target page => exact (lawful_list target page).run
  | delete caller id => exact (lawful_delete id).run

end Comments
end Server
end Uwuubox
