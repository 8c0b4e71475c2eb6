import Uwuubox.Prog.Basic

/-!
# Protocols of programs

A property of everything a program does is a **protocol**: in each phase some operations may be
performed, and the answer to an operation decides the next phase.  A program obeys a
protocol if it performs only what the phase allows, whatever answers come back.

* `Protocol`, `Prog.Obeys` — with `obeys_bind` for sequencing and `Obeys.mono`.
* `Protocol.ofExec` — the protocol whose phases are the states of a run: `obeys_ofExec_iff` says
  that it is the partial correctness of sequential runs, so `obeys_bind` is the rule of
  composition of a Hoare logic.
* `Reaches`, `Obeys.keeps` — the states a run goes through; what obeys a policy keeps the
  invariants that the policy keeps.
* `Obeys.simulate` — a program that obeys one protocol obeys another that is not ahead of it.
* `Obeys.restrict`, `Obeys.stays`, `Obeys.trivially` — protocols that restrict the operations, or only the
  answers.
* `Prog.eval` — the run in which a function answers; `runs_eval`.  `Obeys.runs_once`: where each operation has one
  outcome, a program has one run.
* `Prog.interp` — a program whose operations are carried out by other programs; `Obeys.interp`
  says which protocol it then obeys.
-/

/-- Which operations are allowed in a phase, and which phases an answer leads to. -/
structure Protocol (Γ Op : Type) (Res : Op → Type) where
  may : Γ → Op → Prop
  next : Γ → (op : Op) → Res op → Γ → Prop

/-- The protocol with one phase that allows the operations `P` and expects the answers `ok`. -/
def Protocol.flat {Op : Type} {Res : Op → Type} (P : Op → Prop) (ok : (op : Op) → Res op → Prop) :
    Protocol Unit Op Res := ⟨fun _ => P, fun _ op r _ => ok op r⟩

/-- The protocol that allows everything and follows the state. -/
def Protocol.ofExec {σ Op : Type} {Res : Op → Type}
    (exec : σ → (op : Op) → Res op → σ → Prop) : Protocol σ Op Res := ⟨fun _ _ => True, exec⟩

/-- The protocol that follows a function, and allows operations in the states where it may. -/
def Protocol.along {σ Op : Type} {Res : Op → Type} (may : σ → Op → Prop)
    (ans : σ → (op : Op) → Res op × σ) : Protocol σ Op Res :=
  ⟨may, fun s op r s' => (r, s') = ans s op⟩

namespace Prog

variable {Op : Type} {Res : Op → Type} {Γ α β σ : Type} {π : Protocol Γ Op Res}
  {fin fin' : α → Γ → Prop}

/-- From phase `γ` on the program performs only what the protocol allows, and it returns
with a value and in a phase that `fin` accepts. -/
def Obeys (π : Protocol Γ Op Res) (fin : α → Γ → Prop) : Prog Op Res α → Γ → Prop
  | ret a, γ => fin a γ
  | call op k, γ => π.may γ op ∧ ∀ r γ', π.next γ op r γ' → Obeys π fin (k r) γ'

@[simp] theorem obeys_ret {a : α} {γ : Γ} : (ret a : Prog Op Res α).Obeys π fin γ ↔ fin a γ := Iff.rfl

theorem obeys_call {op : Op} {k : Res op → Prog Op Res α} {γ : Γ} :
    (call op k).Obeys π fin γ ↔
      π.may γ op ∧ ∀ r γ', π.next γ op r γ' → (k r).Obeys π fin γ' := Iff.rfl

theorem obeys_perform {op : Op} {fin : Res op → Γ → Prop} {γ : Γ} :
    (perform op).Obeys π fin γ ↔ π.may γ op ∧ ∀ r γ', π.next γ op r γ' → fin r γ' := Iff.rfl

/-- Sequencing. -/
theorem obeys_bind {fin : β → Γ → Prop} (p : Prog Op Res α) (f : α → Prog Op Res β) (γ : Γ) :
    (p >>= f).Obeys π fin γ ↔ p.Obeys π (fun a => (f a).Obeys π fin) γ := by
  induction p generalizing γ with
  | ret a => exact Iff.rfl
  | call op k ih => simp only [call_bind, obeys_call, ih]

theorem Obeys.mono {p : Prog Op Res α} {γ : Γ} (h : p.Obeys π fin γ)
    (hfin : ∀ a γ, fin a γ → fin' a γ) : p.Obeys π fin' γ := by
  induction p generalizing γ with
  | ret a => exact hfin a γ h
  | call op k ih => exact ⟨h.1, fun r γ' hnext => ih r (h.2 r γ' hnext)⟩

/-- **Simulation.**  What obeys `π` obeys `π'`, if every step that `π'` expects is one that `π`
expects too, between related phases. -/
theorem Obeys.simulate {Δ : Type} {π' : Protocol Δ Op Res} (R : Γ → Δ → Prop)
    (hmay : ∀ {γ δ op}, R γ δ → π.may γ op → π'.may δ op)
    (hnext : ∀ {γ δ op r δ'}, R γ δ → π.may γ op → π'.next δ op r δ' →
      ∃ γ', π.next γ op r γ' ∧ R γ' δ')
    {p : Prog Op Res α} {γ : Γ} {δ : Δ} (h : p.Obeys π fin γ) (hR : R γ δ) :
    p.Obeys π' (fun a δ => ∃ γ, R γ δ ∧ fin a γ) δ := by
  induction p generalizing γ δ with
  | ret a => exact ⟨γ, hR, h⟩
  | call op k ih =>
    refine ⟨hmay hR h.1, fun r δ' hstep => ?_⟩
    obtain ⟨γ', hstep', hR'⟩ := hnext hR h.1 hstep
    exact ih r (h.2 r γ' hstep') hR'

/-- More operations, allowed in the same way. -/
theorem Obeys.weaken {P P' : Op → Prop} {ok : (op : Op) → Res op → Prop} {fin : α → Unit → Prop}
    {p : Prog Op Res α} (h : p.Obeys (.flat P ok) fin ()) (hP : ∀ op, P op → P' op) :
    p.Obeys (.flat P' ok) fin () := by
  induction p with
  | ret a => exact h
  | call op k ih => exact ⟨hP op h.1, fun r _ hok => ih r (h.2 r () hok)⟩

section Free

variable {may : Γ → Op → Prop} {next : Γ → (op : Op) → Res op → Γ → Prop}

/-- What is only said about the operations, and what is said about the answers. -/
theorem Obeys.restrict {P : Op → Prop} {p : Prog Op Res α} {γ : Γ}
    (h : p.Obeys (.flat P fun _ _ => True) (fun _ _ => True) ())
    (h' : p.Obeys ⟨fun _ _ => True, next⟩ fin γ) : p.Obeys ⟨fun _ => P, next⟩ fin γ := by
  induction p generalizing γ with
  | ret a => exact h'
  | call op k ih => exact ⟨h.1, fun r γ' hnext => ih r (h.2 r () trivial) (h'.2 r γ' hnext)⟩

/-- A property of the phase that every answer keeps. -/
theorem Obeys.stays {P : Γ → Prop} (hP : ∀ γ op r γ', next γ op r γ' → P γ → P γ')
    (p : Prog Op Res α) {γ : Γ} (hγ : P γ) : p.Obeys ⟨fun _ _ => True, next⟩ (fun _ => P) γ := by
  induction p generalizing γ with
  | ret a => exact hγ
  | call op k ih => exact ⟨trivial, fun r γ' hnext => ih r (hP γ op r γ' hnext hγ)⟩

/-- Every program may do anything. -/
theorem Obeys.trivially (p : Prog Op Res α) {γ : Γ} : p.Obeys ⟨fun _ _ => True, next⟩ (fun _ _ => True) γ :=
  Obeys.stays (P := fun _ => True) (fun _ _ _ _ _ h => h) p trivial

end Free

/-! ## Sequential runs -/

section Runs

variable {exec : σ → (op : Op) → Res op → σ → Prop}

/-- Obeying the state is partial correctness. -/
theorem obeys_ofExec_iff {p : Prog Op Res α} {Q : α → σ → Prop} {s : σ} :
    p.Obeys (.ofExec exec) Q s ↔ ∀ a s', p.Runs exec s a s' → Q a s' := by
  induction p generalizing s with
  | ret a =>
    constructor
    · rintro h b s' ⟨rfl, rfl⟩
      exact h
    · intro h
      exact h a s ⟨rfl, rfl⟩
  | call op k ih =>
    constructor
    · rintro ⟨-, h⟩ a s' ⟨r, t, hexec, hrun⟩
      exact (ih r).1 (h r t hexec) a s' hrun
    · intro h
      exact ⟨trivial, fun r t hexec => (ih r).2 fun a s' hrun => h a s' ⟨r, t, hexec, hrun⟩⟩

/-- The states that a run goes through, its first and its last among them. -/
def Reaches (exec : σ → (op : Op) → Res op → σ → Prop) : Prog Op Res α → σ → σ → Prop
  | ret _, s, s' => s' = s
  | call op k, s, s' => s' = s ∨ ∃ r t, exec s op r t ∧ (k r).Reaches exec t s'

theorem Runs.reaches {p : Prog Op Res α} {a : α} {s s' : σ} (h : p.Runs exec s a s') :
    p.Reaches exec s s' := by
  induction p generalizing s with
  | ret b => exact h.2
  | call op k ih =>
    obtain ⟨r, t, hexec, hrun⟩ := h
    exact .inr ⟨r, t, hexec, ih r hrun⟩

section Policy

variable {may : σ → Op → Prop}

/-- **A policy keeps an invariant.**  What performs only operations that the policy allows in the
state they are executed in keeps every invariant that these operations keep. -/
theorem Obeys.keeps {Inv : σ → Prop} {fin : α → σ → Prop}
    (hstep : ∀ s op r s', may s op → Inv s → exec s op r s' → Inv s') {p : Prog Op Res α} {s s' : σ}
    (h : p.Obeys ⟨may, exec⟩ fin s) (hs : Inv s) (hreach : p.Reaches exec s s') : Inv s' := by
  induction p generalizing s with
  | ret a =>
    rw [show s' = s from hreach]
    exact hs
  | call op k ih =>
    rcases hreach with rfl | ⟨r, t, hexec, hreach⟩
    · exact hs
    · exact ih r (h.2 r t hexec) (hstep s op r t h.1 hs hexec) hreach

/-- What is known of every run is known of the runs under a policy. -/
theorem Obeys.and {fin fin' : α → σ → Prop} {p : Prog Op Res α} {s : σ}
    (h : p.Obeys (.ofExec exec) fin s) (h' : p.Obeys ⟨may, exec⟩ fin' s) :
    p.Obeys ⟨may, exec⟩ (fun a s => fin a s ∧ fin' a s) s := by
  induction p generalizing s with
  | ret a => exact ⟨h, h'⟩
  | call op k ih => exact ⟨h'.1, fun r t hexec => ih r (h.2 r t hexec) (h'.2 r t hexec)⟩

end Policy

/-- Run the program, with `ans` to answer its operations. -/
def eval (ans : σ → (op : Op) → Res op × σ) : Prog Op Res α → σ → α × σ
  | ret a, s => (a, s)
  | call op k, s => (k (ans s op).1).eval ans (ans s op).2

theorem runs_eval {ans : σ → (op : Op) → Res op × σ}
    (hans : ∀ s op, exec s op (ans s op).1 (ans s op).2) (p : Prog Op Res α) (s : σ) :
    p.Runs exec s (p.eval ans s).1 (p.eval ans s).2 := by
  induction p generalizing s with
  | ret a => exact ⟨rfl, rfl⟩
  | call op k ih => exact ⟨_, _, hans s op, ih _ _⟩

/-- **A program that performs only what has exactly one outcome** runs, and in one way. -/
theorem Obeys.runs_once {may : σ → Op → Prop} {ans : σ → (op : Op) → Res op × σ}
    (hans : ∀ s op r s', may s op → (exec s op r s' ↔ (r, s') = ans s op)) {fin : α → σ → Prop}
    {p : Prog Op Res α} {s : σ} (h : p.Obeys (.along may ans) fin s) :
    ∃ a s', p.Runs exec s a s' ∧ fin a s' ∧ ∀ b t, p.Runs exec s b t → b = a ∧ t = s' := by
  induction p generalizing s with
  | ret a => exact ⟨a, s, ⟨rfl, rfl⟩, h, fun b t hrun => hrun⟩
  | call op k ih =>
    obtain ⟨hmay, hrest⟩ := h
    obtain ⟨a, s', hrun, hfin, hunique⟩ := ih _ (hrest _ _ rfl)
    refine ⟨a, s', ⟨_, _, (hans s op _ _ hmay).2 rfl, hrun⟩, hfin, ?_⟩
    rintro b t ⟨r, u, hexec, hrun'⟩
    obtain ⟨rfl, rfl⟩ := Prod.mk.inj ((hans s op r u hmay).1 hexec)
    exact hunique b t hrun'

end Runs

/-! ## Interpretation -/

theorem bind_assoc {γ : Type} (p : Prog Op Res α) (f : α → Prog Op Res β) (g : β → Prog Op Res γ) :
    p >>= f >>= g = p >>= fun a => f a >>= g := by
  induction p with
  | ret a => rfl
  | call op k ih => exact congrArg (call op) (funext ih)

theorem bind_ret (p : Prog Op Res α) : p >>= ret = p := by
  induction p with
  | ret a => rfl
  | call op k ih => exact congrArg (call op) (funext ih)

instance : LawfulMonad (Prog Op Res) :=
  LawfulMonad.mk' (Prog Op Res) bind_ret (fun _ _ => rfl) bind_assoc

variable {m : Type → Type} [Monad m]

/-- Carry out each operation by `φ`. -/
def interp (φ : (op : Op) → m (Res op)) : Prog Op Res α → m α
  | ret a => pure a
  | call op k => φ op >>= fun r => (k r).interp φ

@[simp] theorem interp_ret (φ : (op : Op) → m (Res op)) (a : α) :
    (ret a : Prog Op Res α).interp φ = pure a := rfl

theorem interp_call (φ : (op : Op) → m (Res op)) (op : Op) (k : Res op → Prog Op Res α) :
    (call op k).interp φ = φ op >>= fun r => (k r).interp φ := rfl

/-- What the operations obey when they are carried out, the program obeys. -/
theorem Obeys.interp {Op' : Type} {Res' : Op' → Type} {π' : Protocol Γ Op' Res'}
    {φ : (op : Op) → Prog Op' Res' (Res op)}
    (hφ : ∀ γ op, π.may γ op → (φ op).Obeys π' (fun r γ' => π.next γ op r γ') γ)
    {p : Prog Op Res α} {γ : Γ} (h : p.Obeys π fin γ) : (p.interp φ).Obeys π' fin γ := by
  induction p generalizing γ with
  | ret a => exact h
  | call op k ih =>
    rw [interp_call, obeys_bind]
    exact (hφ γ op h.1).mono fun r γ' hnext => ih r (h.2 r γ' hnext)

end Prog
