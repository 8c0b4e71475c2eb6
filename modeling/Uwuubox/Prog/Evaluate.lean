import Uwuubox.Prog.Fallible
import Uwuubox.Prog.Faults

/-!
# Handlers in one state

What a program that may stop with an error comes to when a function answers its operations, line by line.

* `Fallible.eval` — its result and the state it ends in.
* `andThen` — what follows a step; `eval_bind`, `eval_reject`, `eval_orThrow`, `eval_check` — the lines of a handler.
* `eval_bind_ok` — what returns a value has returned one at each of its steps.
-/

namespace Fallible

variable {Op : Type} {Res : Op → Type} {E α β σ : Type} (ans : σ → (op : Op) → Res op × σ)

/-- What the program returns when `ans` answers it from `s` on, and the state after it. -/
def eval (p : Fallible Op Res E α) (s : σ) : Except E α × σ := Prog.eval ans p.run s

/-- What follows a step. -/
def andThen (f : α → Fallible Op Res E β) : Except E α × σ → Except E β × σ
  | (.ok a, s) => eval ans (f a) s
  | (.error e, s) => (.error e, s)

variable {ans}

@[simp] theorem andThen_ok (f : α → Fallible Op Res E β) (a : α) (s : σ) :
    andThen ans f (.ok a, s) = eval ans (f a) s := rfl

@[simp] theorem andThen_error (f : α → Fallible Op Res E β) (e : E) (s : σ) :
    andThen ans f (.error e, s) = (.error e, s) := rfl

@[simp] theorem eval_pure (a : α) (s : σ) : eval ans (pure a : Fallible Op Res E α) s = (.ok a, s) := rfl

@[simp] theorem eval_throw (e : E) (s : σ) : eval ans (throw e : Fallible Op Res E α) s = (.error e, s) := rfl

theorem eval_bind (p : Fallible Op Res E α) (f : α → Fallible Op Res E β) (s : σ) :
    eval ans (p >>= f) s = andThen ans f (eval ans p s) := by
  unfold eval
  rw [ExceptT.run_bind, Prog.eval_bind]
  obtain ⟨r, s'⟩ := Prog.eval ans p.run s
  cases r <;> rfl

@[simp] theorem eval_always (p : Prog Op Res α) (s : σ) :
    eval ans (always p : Fallible Op Res E α) s = (.ok (p.eval ans s).1, (p.eval ans s).2) := by
  unfold eval always
  rw [ExceptT.run_lift, map_eq_pure_bind, Prog.eval_bind]
  rfl

@[simp] theorem eval_reject {c : Prop} [Decidable c] (e : E) (s : σ) :
    eval ans (reject c e) s = (if c then .error e else .ok (), s) := by
  unfold reject
  split <;> rfl

@[simp] theorem eval_orThrow (o : Option α) (e : E) (s : σ) :
    eval ans (orThrow o e) s = (o.elim (.error e) .ok, s) := by
  cases o <;> rfl

@[simp] theorem eval_check (x : Except E α) (s : σ) : eval ans (check x : Fallible Op Res E α) s = (x, s) := by
  cases x <;> rfl

/-- Each step of what returns a value has returned one. -/
theorem eval_bind_ok {p : Fallible Op Res E α} {f : α → Fallible Op Res E β} {s s' : σ} {b : β} :
    eval ans (p >>= f) s = (.ok b, s') ↔ ∃ a t, eval ans p s = (.ok a, t) ∧ eval ans (f a) t = (.ok b, s') := by
  rw [eval_bind]
  constructor
  · intro h
    rcases hp : eval ans p s with ⟨_ | a, t⟩
    · rw [hp] at h
      cases h
    · rw [hp] at h
      exact ⟨a, t, rfl, h⟩
  · rintro ⟨a, t, hp, hf⟩
    rw [hp]
    exact hf

theorem eval_bind_of_ok {p : Fallible Op Res E α} {f : α → Fallible Op Res E β} {s t : σ} {a : α}
    (h : eval ans p s = (.ok a, t)) : eval ans (p >>= f) s = eval ans (f a) t := by
  rw [eval_bind, h]
  rfl

end Fallible
