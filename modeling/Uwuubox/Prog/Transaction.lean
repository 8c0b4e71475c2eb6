import Mathlib

/-!
# Transactions

A database transaction performs its statements on a working copy of the state.  When the last one
has been performed the copy becomes the state; when one of them fails, or the program gives up, the
copy is thrown away.

* `Transaction` — statements on a working copy, each of which may end the transaction.
* `Transaction.commit` — the whole transaction, on the state.
* `commit_error`, `run_of_commit_ok` — **all or nothing**: a transaction that ends with an error has no
  effect, and one that does not has the effect of its statements.
* `run_bind_ok` — a transaction that reaches its end has passed each of its statements.
-/

/-- Statements on a working copy, each of which may end the transaction with an error. -/
abbrev Transaction (σ E α : Type) := StateT σ (Except E) α

namespace Transaction

variable {σ E α β : Type} {t : Transaction σ E α} {s s' : σ}

/-- Begin, perform the statements, and commit; or roll back. -/
def commit (t : Transaction σ E α) (s : σ) : Except E α × σ :=
  match t.run s with
  | .ok (a, s') => (.ok a, s')
  | .error e => (.error e, s)

/-- A transaction that fails has no effect. -/
theorem commit_error {e : E} (h : (t.commit s).1 = .error e) : (t.commit s).2 = s := by
  unfold commit at h ⊢
  split at h
  · cases h
  · rfl

/-- A transaction that commits has the effect of its statements. -/
theorem run_of_commit_ok {a : α} (h : (t.commit s).1 = .ok a) : t.run s = .ok (a, (t.commit s).2) := by
  unfold commit at h ⊢
  split at h
  · rename_i a' s' hrun
    cases h
    rw [hrun]
  · cases h

/-- A transaction that reaches its end has passed its first statement. -/
theorem run_bind_ok {f : α → Transaction σ E β} {b : β} :
    (t >>= f).run s = .ok (b, s') ↔ ∃ a s₁, t.run s = .ok (a, s₁) ∧ (f a).run s₁ = .ok (b, s') := by
  rw [StateT.run_bind]
  cases hrun : t.run s with
  | error e =>
    constructor
    · intro h
      cases h
    · rintro ⟨a, s₁, h, -⟩
      cases h
  | ok as =>
    obtain ⟨a, s₁⟩ := as
    constructor
    · intro h
      exact ⟨a, s₁, rfl, h⟩
    · rintro ⟨a', s₁', h, hrest⟩
      cases h
      exact hrest

end Transaction
