import Uwuubox.Prog.Protocol
import Uwuubox.Prog.Pool

/-!
# Programs that may stop with an error

A request handler is a sequence of operations and checks; the first check that fails ends
it with an error.

* `Fallible` — such programs, with `reject`, `orThrow` and `check` for the checks.
* `Fallible.Obeys` — obeying a protocol, with one condition for the value returned and one for
  the error.  The rules `obeys_bind`, `obeys_reject`, `obeys_orThrow`, `obeys_check` follow the
  text of a handler line by line.
* `Fallible.Ends` — what a program ends with, whatever it performs, with a rule for each line of a
  handler.
* `Prog.Obeys.interp_fallible` — `Prog.Obeys.interp` where the operations may stop.
* `Prog.Obeys.owns` — from a protocol to the ledger: where the phase of a program says what
  it owns, obeying the protocol is owning.
* `Pool.Reachable.invariant` — an invariant that every operation a request may perform keeps
  holds of every reachable pool.
-/

/-- Programs that return an `α` or stop with an `E`. -/
abbrev Fallible (Op : Type) (Res : Op → Type) (E : Type) := ExceptT E (Prog Op Res)

namespace Fallible

variable {Op : Type} {Res : Op → Type} {E α β Γ : Type}

/-- Stop with `e` if `c` holds. -/
def reject (c : Prop) [Decidable c] (e : E) : Fallible Op Res E Unit :=
  if c then throw e else pure ()

/-- Stop with `e` if there is nothing. -/
def orThrow (o : Option α) (e : E) : Fallible Op Res E α :=
  match o with
  | some a => pure a
  | none => throw e

/-- Stop with the error of a computation that failed. -/
def check (x : Except E α) : Fallible Op Res E α :=
  match x with
  | .ok a => pure a
  | .error e => throw e

/-- An operation, with its answer. -/
def perform (op : Op) : Fallible Op Res E (Res op) := ExceptT.lift (Prog.perform op)

/-- A program that does not fail. -/
def always (p : Prog Op Res α) : Fallible Op Res E α := ExceptT.lift p

/-- From phase `γ` on the program performs only what `π` allows, and ends with a value
that `fin` accepts or an error that `err` accepts. -/
def Obeys (π : Protocol Γ Op Res) (fin : α → Γ → Prop) (err : E → Γ → Prop)
    (p : Fallible Op Res E α) (γ : Γ) : Prop :=
  Prog.Obeys π (fun r γ => match r with
    | .ok a => fin a γ
    | .error e => err e γ) p.run γ

variable {π : Protocol Γ Op Res} {fin fin' : α → Γ → Prop} {err err' : E → Γ → Prop} {γ : Γ}

@[simp] theorem obeys_pure {a : α} :
    (pure a : Fallible Op Res E α).Obeys π fin err γ ↔ fin a γ := Iff.rfl

@[simp] theorem obeys_throw {e : E} :
    (throw e : Fallible Op Res E α).Obeys π fin err γ ↔ err e γ := Iff.rfl

theorem obeys_bind {fin : β → Γ → Prop} (p : Fallible Op Res E α) (f : α → Fallible Op Res E β) :
    (p >>= f).Obeys π fin err γ ↔ p.Obeys π (fun a => (f a).Obeys π fin err) err γ := by
  unfold Obeys
  rw [ExceptT.run_bind, Prog.obeys_bind]
  apply iff_of_eq
  congr 1
  funext r γ
  cases r with
  | ok a => rfl
  | error e => rfl

theorem Obeys.mono {p : Fallible Op Res E α} (h : p.Obeys π fin err γ)
    (hfin : ∀ a γ, fin a γ → fin' a γ) (herr : ∀ e γ, err e γ → err' e γ) :
    p.Obeys π fin' err' γ := by
  unfold Obeys at h ⊢
  apply h.mono
  intro r γ hr
  cases r with
  | ok a => exact hfin a γ hr
  | error e => exact herr e γ hr

@[simp] theorem obeys_reject {c : Prop} [Decidable c] {e : E} {fin : Unit → Γ → Prop} :
    (reject c e : Fallible Op Res E Unit).Obeys π fin err γ ↔ (c → err e γ) ∧ (¬ c → fin () γ) := by
  unfold reject
  split
  · rename_i hc
    simp [hc]
  · rename_i hc
    simp [hc]

@[simp] theorem obeys_orThrow {o : Option α} {e : E} :
    (orThrow o e : Fallible Op Res E α).Obeys π fin err γ ↔
      (o = none → err e γ) ∧ ∀ a, o = some a → fin a γ := by
  cases o with
  | none => simp [orThrow]
  | some a => simp [orThrow]

@[simp] theorem obeys_check {x : Except E α} :
    (check x : Fallible Op Res E α).Obeys π fin err γ ↔
      (∀ e, x = .error e → err e γ) ∧ ∀ a, x = .ok a → fin a γ := by
  cases x with
  | ok a => simp [check]
  | error e => simp [check]

@[simp] theorem obeys_perform {op : Op} {fin : Res op → Γ → Prop} :
    (perform op : Fallible Op Res E (Res op)).Obeys π fin err γ ↔
      π.may γ op ∧ ∀ r γ', π.next γ op r γ' → fin r γ' := Iff.rfl

/-- What is known of every run is known of the runs under a policy. -/
theorem Obeys.and {σ : Type} {exec : σ → (op : Op) → Res op → σ → Prop} {may : σ → Op → Prop}
    {fin fin' : α → σ → Prop} {err err' : E → σ → Prop} {p : Fallible Op Res E α} {s : σ}
    (h : p.Obeys (.ofExec exec) fin err s) (h' : p.Obeys ⟨may, exec⟩ fin' err' s) :
    p.Obeys ⟨may, exec⟩ (fun a s => fin a s ∧ fin' a s) (fun e s => err e s ∧ err' e s) s := by
  apply Prog.Obeys.mono (Prog.Obeys.and h h')
  intro r s hr
  cases r with
  | ok a => exact hr
  | error e => exact hr

theorem obeys_always {p : Prog Op Res α} :
    (always p : Fallible Op Res E α).Obeys π fin err γ ↔ p.Obeys π fin γ := by
  unfold Obeys always
  rw [ExceptT.run_lift, ← bind_pure_comp, Prog.obeys_bind]
  exact Iff.rfl

/-! ## What a program ends with -/

/-- In whatever phase it is started, the program ends with a value that `fin` accepts, or with
an error. -/
def Ends (next : Γ → (op : Op) → Res op → Γ → Prop) (fin : α → Γ → Prop) (p : Fallible Op Res E α) :
    Prop := ∀ γ, p.Obeys ⟨fun _ _ => True, next⟩ fin (fun _ _ => True) γ

namespace Ends

variable {next : Γ → (op : Op) → Res op → Γ → Prop} {fin : β → Γ → Prop}

theorem pure {b : β} (h : ∀ γ, fin b γ) : Ends next fin (pure b : Fallible Op Res E β) := h

theorem throw {e : E} : Ends next fin (throw e : Fallible Op Res E β) := fun _ => trivial

theorem mono {fin' : β → Γ → Prop} {p : Fallible Op Res E β} (hp : Ends next fin p)
    (h : ∀ b γ, fin b γ → fin' b γ) : Ends next fin' p := fun γ => (hp γ).mono h fun _ _ _ => trivial

theorem bind {P : α → Γ → Prop} {p : Fallible Op Res E α} {f : α → Fallible Op Res E β}
    (hp : Ends next P p)
    (hf : ∀ a γ, P a γ → (f a).Obeys ⟨fun _ _ => True, next⟩ fin (fun _ _ => True) γ) :
    Ends next fin (p >>= f) := fun γ => (obeys_bind _ _).2 ((hp γ).mono hf fun _ _ _ => trivial)

/-- A step with what is known of its value. -/
theorem step {P : α → Prop} {p : Fallible Op Res E α} {f : α → Fallible Op Res E β}
    (hp : Ends next (fun a _ => P a) p) (hf : ∀ a, P a → Ends next fin (f a)) :
    Ends next fin (p >>= f) := bind hp fun a γ ha => hf a ha γ

theorem trivially {p : Fallible Op Res E α} : Ends next (fun _ _ => True) p := fun γ =>
  (Prog.Obeys.trivially p.run).mono fun r _ _ => by
    cases r <;> trivial

/-- A step whose value does not matter. -/
theorem skip {p : Fallible Op Res E α} {f : α → Fallible Op Res E β} (hf : ∀ a, Ends next fin (f a)) :
    Ends next fin (p >>= f) := step trivially fun a _ => hf a

theorem reject {c : Prop} [Decidable c] {e : E} {f : Unit → Fallible Op Res E β}
    (hf : ¬ c → Ends next fin (f ())) : Ends next fin (Fallible.reject c e >>= f) :=
  step (P := fun _ => ¬ c) (fun _ => obeys_reject.2 ⟨fun _ => trivial, fun h => h⟩) fun _ h => hf h

theorem orThrow {o : Option α} {e : E} {f : α → Fallible Op Res E β}
    (hf : ∀ a, o = some a → Ends next fin (f a)) : Ends next fin (Fallible.orThrow o e >>= f) :=
  step (P := fun a => o = some a) (fun _ => obeys_orThrow.2 ⟨fun _ => trivial, fun _ h => h⟩) hf

theorem check {x : Except E α} {f : α → Fallible Op Res E β} (hf : ∀ a, x = .ok a → Ends next fin (f a)) :
    Ends next fin (Fallible.check x >>= f) :=
  step (P := fun a => x = .ok a) (fun _ => obeys_check.2 ⟨fun _ _ => trivial, fun _ h => h⟩) hf

theorem always {p : Prog Op Res α} {f : α → Fallible Op Res E β} {P : α → Prop}
    (hp : ∀ γ, p.Obeys ⟨fun _ _ => True, next⟩ (fun a _ => P a) γ) (hf : ∀ a, P a → Ends next fin (f a)) :
    Ends next fin (Fallible.always p >>= f) := step (fun γ => obeys_always.2 (hp γ)) hf

theorem ite {c : Prop} [Decidable c] {p q : Fallible Op Res E β} (hp : c → Ends next fin p)
    (hq : ¬ c → Ends next fin q) : Ends next fin (if c then p else q) := by
  by_cases hc : c
  · rw [if_pos hc]
    exact hp hc
  · rw [if_neg hc]
    exact hq hc

end Ends

end Fallible

/-- What the operations obey when they are carried out, and may stop, the program obeys. -/
theorem Prog.Obeys.interp_fallible {Op Op' : Type} {Res : Op → Type} {Res' : Op' → Type} {E α Γ : Type}
    {π : Protocol Γ Op Res} {π' : Protocol Γ Op' Res'} {fin : α → Γ → Prop} {err : E → Γ → Prop}
    {φ : (op : Op) → Fallible Op' Res' E (Res op)}
    (hφ : ∀ γ op, π.may γ op → (φ op).Obeys π' (fun r γ' => π.next γ op r γ') err γ)
    {p : Prog Op Res α} {γ : Γ} (h : p.Obeys π fin γ) : (p.interp φ).Obeys π' fin err γ := by
  induction p generalizing γ with
  | ret a => exact h
  | call op k ih =>
    rw [Prog.interp_call, Fallible.obeys_bind]
    exact (hφ γ op h.1).mono (fun r γ' hnext => ih r (h.2 r γ' hnext)) fun _ _ he => he

/-! ## Protocols and ledgers -/

section Ledger

variable {Op : Type} {Res : Op → Type} {Γ α σ G ι : Type} [AddCommMonoid G]
  {π : Protocol Γ Op Res} {fin : α → Γ → Prop} {inv : σ → G → Prop}
  {exec : σ → (op : Op) → Res op → σ → Prop}

/-- **From a protocol to the ledger.**  In phase `γ` the program owns `share γ`; if every step
that the protocol allows keeps the invariant, so does the program. -/
theorem Prog.Obeys.owns {share : Γ → G}
    (hstep : ∀ γ op s r s' f, π.may γ op → inv s (share γ + f) → exec s op r s' →
      ∃ γ', π.next γ op r γ' ∧ inv s' (share γ' + f))
    {p : Prog Op Res α} {γ : Γ} (h : p.Obeys π fin γ) :
    p.Owns inv exec (fun a g => ∃ γ, g = share γ ∧ fin a γ) (share γ) := by
  induction p generalizing γ with
  | ret a => exact ⟨γ, rfl, h⟩
  | call op k ih =>
    intro s r s' f hinv hexec
    obtain ⟨γ', hnext, hinv'⟩ := hstep γ op s r s' f h.1 hinv hexec
    exact ⟨share γ', hinv', ih r (h.2 r γ' hnext)⟩

end Ledger

namespace Pool

open Relation

variable {σ ι Op : Type} {Res : Op → Type} {α : Type} {code : ι → Prog Op Res α}
  {exec : σ → (op : Op) → Res op → σ → Prop} {stop : Prop} {s₀ : σ}

/-- **The invariant rule.**  If request `i` performs only the operations `P i`, as long as they
are answered as `ok` says, and these operations keep `Inv` and are answered so where `Inv` holds,
then `Inv` holds of every reachable pool, and what is left of every request still performs
only its own operations. -/
theorem Reachable.invariant {Inv : σ → Prop} {P : ι → Op → Prop} {ok : (op : Op) → Res op → Prop}
    {fin : ι → α → Unit → Prop} (h₀ : Inv s₀)
    (hcode : ∀ i, (code i).Obeys (.flat (P i) ok) (fin i) ())
    (hstep : ∀ i op s r s', P i op → Inv s → exec s op r s' → ok op r ∧ Inv s')
    {p : Pool σ ι Op Res α} (hp : Reachable code exec stop s₀ p) :
    Inv p.shared ∧ ∀ t ∈ p.threads, t.2.Obeys (.flat (P t.1) ok) (fin t.1) () := by
  induction hp with
  | refl => exact ⟨h₀, fun t ht => absurd ht List.not_mem_nil⟩
  | tail _ hlast ih =>
    obtain ⟨hinv, hall⟩ := ih
    cases hlast with
    | spawn s ts i =>
      refine ⟨hinv, fun t ht => ?_⟩
      rcases List.mem_cons.1 ht with rfl | ht
      · exact hcode i
      · exact hall t ht
    | @act s s' pre post i op k r hexec =>
      obtain ⟨hmay, hrest⟩ := hall (i, .call op k) List.mem_append_cons_self
      obtain ⟨hok, hinv'⟩ := hstep i op s r s' hmay hinv hexec
      refine ⟨hinv', fun t ht => ?_⟩
      rcases List.mem_append.1 ht with ht | ht
      · exact hall t (List.mem_append.2 (.inl ht))
      · rcases List.mem_cons.1 ht with rfl | ht
        · exact hrest r () hok
        · exact hall t (List.mem_append.2 (.inr (List.mem_cons_of_mem _ ht)))
    | @stop s pre post i op k hs =>
      refine ⟨hinv, fun t ht => hall t ?_⟩
      rcases List.mem_append.1 ht with ht | ht
      · exact List.mem_append.2 (.inl ht)
      · exact List.mem_append.2 (.inr (List.mem_cons_of_mem _ ht))

end Pool
