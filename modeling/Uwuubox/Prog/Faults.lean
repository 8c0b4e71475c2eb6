import Uwuubox.Prog.Protocol

/-!
# A run in which one operation fails

* `Prog.trace` — the operations of the run in which a function answers.
* `Prog.evalFault` — that run, but for one operation, which is answered by another function.
* `eval_bind`, `trace_bind`, `evalFault_bind_left`, `evalFault_bind_right` — sequencing: the
  operation that fails is one of the first program, or one of the second.
-/

namespace Prog

variable {σ Op : Type} {Res : Op → Type} {α β : Type} (ans fault : σ → (op : Op) → Res op × σ)

/-- The operations of the run, in order. -/
def trace : Prog Op Res α → σ → List Op
  | ret _, _ => []
  | call op k, s => op :: (k (ans s op).1).trace (ans s op).2

/-- The run whose operation number `n`, from zero on, is answered by `fault`. -/
def evalFault : ℕ → Prog Op Res α → σ → α × σ
  | _, ret a, s => (a, s)
  | 0, call op k, s => (k (fault s op).1).eval ans (fault s op).2
  | n + 1, call op k, s => evalFault n (k (ans s op).1) (ans s op).2

variable {ans fault}

@[simp] theorem eval_ret (a : α) (s : σ) : (ret a : Prog Op Res α).eval ans s = (a, s) := rfl

@[simp] theorem eval_call (op : Op) (k : Res op → Prog Op Res α) (s : σ) :
    (call op k).eval ans s = (k (ans s op).1).eval ans (ans s op).2 := rfl

@[simp] theorem trace_ret (a : α) (s : σ) : (ret a : Prog Op Res α).trace ans s = [] := rfl

@[simp] theorem trace_call (op : Op) (k : Res op → Prog Op Res α) (s : σ) :
    (call op k).trace ans s = op :: (k (ans s op).1).trace ans (ans s op).2 := rfl

@[simp] theorem evalFault_zero (op : Op) (k : Res op → Prog Op Res α) (s : σ) :
    (call op k).evalFault ans fault 0 s = (k (fault s op).1).eval ans (fault s op).2 := rfl

@[simp] theorem evalFault_succ (n : ℕ) (op : Op) (k : Res op → Prog Op Res α) (s : σ) :
    (call op k).evalFault ans fault (n + 1) s = (k (ans s op).1).evalFault ans fault n (ans s op).2 := rfl

theorem eval_bind (p : Prog Op Res α) (f : α → Prog Op Res β) (s : σ) :
    (p >>= f).eval ans s = (f (p.eval ans s).1).eval ans (p.eval ans s).2 := by
  induction p generalizing s with
  | ret a => rfl
  | call op k ih => exact ih _ _

theorem trace_bind (p : Prog Op Res α) (f : α → Prog Op Res β) (s : σ) :
    (p >>= f).trace ans s = p.trace ans s ++ (f (p.eval ans s).1).trace ans (p.eval ans s).2 := by
  induction p generalizing s with
  | ret a => rfl
  | call op k ih => exact congrArg (op :: ·) (ih _ _)

/-- The operation that fails is one of the first program. -/
theorem evalFault_bind_left (p : Prog Op Res α) (f : α → Prog Op Res β) {n : ℕ} {s : σ}
    (hn : n < (p.trace ans s).length) : (p >>= f).evalFault ans fault n s =
      (f (p.evalFault ans fault n s).1).eval ans (p.evalFault ans fault n s).2 := by
  induction p generalizing n s with
  | ret a => exact absurd hn (Nat.not_lt_zero n)
  | call op k ih =>
    cases n with
    | zero => exact eval_bind _ _ _
    | succ n => exact ih _ (Nat.lt_of_succ_lt_succ hn)

/-- The operation that fails is one of the second program. -/
theorem evalFault_bind_right (p : Prog Op Res α) (f : α → Prog Op Res β) (n : ℕ) (s : σ) :
    (p >>= f).evalFault ans fault ((p.trace ans s).length + n) s =
      (f (p.eval ans s).1).evalFault ans fault n (p.eval ans s).2 := by
  induction p generalizing s with
  | ret a =>
    rw [trace_ret, List.length_nil, Nat.zero_add]
    rfl
  | call op k ih =>
    rw [trace_call, List.length_cons, Nat.add_right_comm]
    exact ih _ _

end Prog
