import Uwuubox.Server.Facts
import Uwuubox.Server.PublicPages
import Uwuubox.Table.Paged

/-!
# Comments

`src/routes/comments.rs`: comments on files, pastes and collections, beside the requests of the server.

* `Comment`, `CommentWorld` — the table `comments` and its sequence.  The target of a row is what `target_kind` and
  `target_core` name.
* `CommentOp`, `answerComment`, `execComment` — its statements.
* `create`, `list`, `delete` — the handlers; `CommentRequest`, `serveComment`.
-/

namespace Uwuubox
namespace Server
namespace Comments

open Dedupe Storage Table Fallible

/-! ## The state -/

/-- What a comment is about: a file, a paste or a collection. -/
abbrev Subject := Item ⊕ Uuid

/-- A row of `comments`. -/
structure Comment where
  id : ℤ
  subject : Subject
  authorId : Option Uuid
  body : Text
  createdAt : ℤ
deriving DecidableEq

/-- `ORDER BY created_at DESC, id DESC` -/
def Comment.Before (a b : Comment) : Prop := b.createdAt < a.createdAt ∨ a.createdAt = b.createdAt ∧ b.id ≤ a.id

instance : DecidableRel Comment.Before := fun _ _ => inferInstanceAs (Decidable (_ ∨ _))

structure CommentWorld where
  server : World
  comments : Keyed Comment.id
  /-- The next value of the sequence of the ids. -/
  nextId : ℤ

namespace CommentWorld

/-- The comments about a subject, the newest first. -/
def about (s : CommentWorld) (subject : Subject) : List Comment :=
  (s.comments.rows.filter fun comment => comment.subject = subject).insertionSort Comment.Before

/-- `LEFT JOIN users u ON u.id = c.author_id` -/
def withAuthor (s : CommentWorld) (comment : Comment) : CommentRow where
  id := comment.id
  authorId := comment.authorId
  authorName := (comment.authorId.bind s.server.users.find?).map User.username
  body := comment.body
  createdAt := comment.createdAt

/-- A value is taken from the sequence. -/
def skipId (s : CommentWorld) : CommentWorld := { s with nextId := s.nextId + 1 }

end CommentWorld

/-! ## The operations -/

inductive CommentOp where
  | server (op : Op)
  /-- `INSERT INTO comments .. RETURNING ..`, with the name of the author -/
  | insertComment (subject : Subject) (authorId : Uuid) (body : Text)
  /-- `SELECT .. WHERE target_kind = $1 AND target_core = $2 ORDER BY .. LIMIT 51 OFFSET $3` -/
  | commentsAbout (subject : Subject) (offset : ℤ)
  /-- `SELECT .. WHERE c.id = $1` -/
  | findComment (id : ℤ)
  /-- `DELETE FROM comments WHERE id = $1`: how many rows there were -/
  | deleteComment (id : ℤ)

namespace CommentOp

abbrev Val : CommentOp → Type
  | server op => op.Val
  | insertComment _ _ _ => CommentRow
  | commentsAbout _ _ => List CommentRow
  | findComment _ => Option Comment
  | deleteComment _ => ℕ

abbrev Res (op : CommentOp) : Type := Except Failure op.Val

/-- The operation takes a value from the sequence. -/
def takesId : CommentOp → Bool
  | insertComment _ _ _ => true
  | _ => false

end CommentOp

/-- `violates foreign key constraint` -/
def foreignKeyViolation : Failure := .sql (.io "foreign key violation")

/-- `nextval: reached maximum value of sequence` -/
def sequenceExhausted : Failure := .sql (.io "sequence exhausted")

/-- The row that is inserted now. -/
def CommentWorld.newRow (s : CommentWorld) (subject : Subject) (authorId : Uuid) (body : Text) : Comment :=
  ⟨s.nextId, subject, some authorId, body, s.server.now⟩

/-- What an operation returns and does when it does not fail. -/
def answerComment (s : CommentWorld) : (op : CommentOp) → op.Res × CommentWorld
  | .server op => ((answer s.server op).1, { s with server := (answer s.server op).2 })
  | .insertComment subject authorId body =>
    if s.nextId ≤ 2 ^ 63 - 1 then
      if (s.server.users.find? authorId).isSome then
        match s.comments.insert? (s.newRow subject authorId body) with
        | some comments =>
          (.ok (s.withAuthor (s.newRow subject authorId body)), { s.skipId with comments := comments })
        | none => (.error (.sql (.uniqueViolation "comments_pkey")), s.skipId)
      else (.error foreignKeyViolation, s.skipId)
    else (.error sequenceExhausted, s)
  | .commentsAbout subject offset =>
    (.ok ((((s.about subject).drop offset.toNat).take 51).map s.withAuthor), s)
  | .findComment id => (.ok (s.comments.find? id), s)
  | .deleteComment id =>
    (.ok (if (s.comments.find? id).isSome then 1 else 0),
      { s with comments := s.comments.delete fun comment => comment.id = id })

/-- What one operation can do.  A statement that fails may have taken a value from the sequence. -/
def execComment (mayFail : CommentOp → Prop) (s : CommentWorld) :
    (op : CommentOp) → op.Res → CommentWorld → Prop
  | .server op, r, s' => ∃ w, exec (fun op => mayFail (.server op)) s.server op r w ∧ s' = { s with server := w }
  | op, r, s' => (r, s') = answerComment s op ∨
      mayFail op ∧ (∃ e, r = .error e) ∧ (s' = s ∨ op.takesId = true ∧ s' = s.skipId)

theorem exec_answerComment (mayFail : CommentOp → Prop) (s : CommentWorld) (op : CommentOp) :
    execComment mayFail s op (answerComment s op).1 (answerComment s op).2 := by
  cases op with
  | server op => exact ⟨_, exec_answer _ s.server op, rfl⟩
  | _ => exact .inl rfl

/-! ## The handlers -/

/-- What a handler answers. -/
inductive CommentReply where
  | served (response : Response)
  | created (comment : CommentView)
  | listed (page : CommentsPage)
  | deleted (id : ℤ)

abbrev CommentHandler (α : Type) := Fallible CommentOp CommentOp.Res Abort α

/-- A query of the server. -/
def onServer {α : Type} (p : Query α) : Prog CommentOp CommentOp.Res α :=
  p.interp fun op => Prog.perform (CommentOp.server op)

/-- A handler of the server. -/
def onComments {α : Type} (p : Handler α) : CommentHandler α := ExceptT.mk (onServer p.run)

/-- A statement followed by `?`. -/
def askComment (op : CommentOp) : CommentHandler op.Val := do
  match ← perform op with
  | .ok v => pure v
  | .error e => throw (Abort.error (.from' e))

/-- `target_kind` and `target_core` of a row. -/
def rowTarget : Subject → CommentTarget
  | .inl (.file core) => .file core.val
  | .inl (.paste core) => .paste core.val
  | .inr id => .collection (some id)

/-- `comment_identity` -/
def commentIdentity (env : Env) (caller : Caller) : Handler Identity := do
  let identity ← always (currentIdentity env caller)
  check (requireScope identity .paste)

/-- `create` -/
def create (env : Env) (caller : Caller) (target : CommentTarget) (input : Text) : CommentHandler CommentReply := do
  let identity ← onComments (commentIdentity env caller)
  let cfg ← onComments (ask .instanceConfig)
  let limits ← onComments (effectiveLimits cfg (some identity.user))
  reject (!limits.canComment) (AppError.forbidden "commenting is not allowed for your role")
  let body := trim input
  reject body.isEmpty (AppError.badRequest "comment must not be empty")
  reject (body.length > 2000) (AppError.badRequest "comment must be <= 2000 characters")
  let target ← onComments (resolveTarget target)
  let row ← askComment (.insertComment target.commented identity.user.id body)
  pure (.created (viewComment row (some identity) target.ownerId limits.canModerate))

/-- `list` -/
def list (env : Env) (caller : Caller) (target : CommentTarget) (page : Option ℤ) : CommentHandler CommentReply := do
  let identity ← onComments (always (currentIdentity env caller))
  let target ← onComments (resolveTarget target)
  let page := max 1 (page.getD 1)
  let offset := min ((page - 1) * 50) (2 ^ 63 - 1)
  let rows ← askComment (.commentsAbout target.commented offset)
  let shown := cut 50 rows
  let canModerate ← onComments (moderates identity)
  pure (.listed { comments := shown.rows.map fun comment => viewComment comment identity target.ownerId canModerate
                  page := page
                  hasNext := shown.hasNext })

/-- `delete` -/
def delete (env : Env) (caller : Caller) (id : ℤ) : CommentHandler CommentReply := do
  let identity ← onComments (commentIdentity env caller)
  let comment ← askComment (.findComment id)
  let comment ← orThrow comment AppError.notFound
  let target ← onComments (resolveTarget (rowTarget comment.subject))
  let cfg ← onComments (ask .instanceConfig)
  let limits ← onComments (effectiveLimits cfg (some identity.user))
  reject (comment.authorId ≠ some identity.user.id ∧ target.ownerId ≠ some identity.user.id ∧ ¬ limits.canModerate)
    (AppError.forbidden "not allowed to delete this comment")
  let deleted ← askComment (.deleteComment id)
  reject (deleted = 0) AppError.notFound
  pure (.deleted id)

/-! ## The requests -/

/-- The requests of the server, and those about comments. -/
inductive CommentRequest where
  | other (req : AuthRequest)
  | create (caller : Caller) (target : CommentTarget) (input : Text)
  | list (caller : Caller) (target : CommentTarget) (page : Option ℤ)
  | delete (caller : Caller) (id : ℤ)

abbrev CommentOutcome := Except Abort CommentReply

/-- The program of a request. -/
def serveComment (env : Env) : CommentRequest → Prog CommentOp CommentOp.Res CommentOutcome
  | .other req => do
    let outcome ← onServer (serveAuth env req)
    pure (outcome.map .served)
  | .create caller target input => (create env caller target input).run
  | .list caller target page => (list env caller target page).run
  | .delete caller id => (delete env caller id).run

end Comments
end Server
end Uwuubox
