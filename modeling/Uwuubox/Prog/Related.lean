import Uwuubox.Prog.Faults
import Uwuubox.Prog.Fallible

/-!
# Two runs side by side

Two programs are run in related states, where they may have different answers, and end in related states with
related values.

* `Prog.Related ans Q R p p'` — from states that `Q` relates, with values that `R` relates.  `perform` asks for what
  one operation does in both states.
* `Prog.Related.of_obeys` — a program of operations that are answered alike is related to itself.
* `Fallible.Related` — the same for programs that may stop: both stop, with the same error, or neither does.
-/

namespace Prog

variable {σ Op : Type} {Res : Op → Type} {α β α' β' : Type}

/-- Run in states that `Q` relates, the programs end in such states, with values that `R` relates. -/
def Related (ans : σ → (op : Op) → Res op × σ) (Q : σ → σ → Prop) (R : α → β → Prop) (p : Prog Op Res α)
    (p' : Prog Op Res β) : Prop :=
  ∀ s s', Q s s' → Q (p.eval ans s).2 (p'.eval ans s').2 ∧ R (p.eval ans s).1 (p'.eval ans s').1

namespace Related

variable {ans : σ → (op : Op) → Res op × σ} {Q : σ → σ → Prop} {R : α → β → Prop} {S : α' → β' → Prop}

theorem pure {a : α} {b : β} (h : R a b) : Related ans Q R (pure a) (pure b) := fun _ _ hs => ⟨hs, h⟩

theorem bind {p : Prog Op Res α} {p' : Prog Op Res β} {f : α → Prog Op Res α'} {f' : β → Prog Op Res β'}
    (hp : Related ans Q R p p') (hf : ∀ a b, R a b → Related ans Q S (f a) (f' b)) :
    Related ans Q S (p >>= f) (p' >>= f') := by
  intro s s' hs
  rw [eval_bind, eval_bind]
  obtain ⟨hstates, hvalues⟩ := hp s s' hs
  exact hf _ _ hvalues _ _ hstates

theorem ite {c : Prop} [Decidable c] {p q : Prog Op Res α} {p' q' : Prog Op Res β} (hp : Related ans Q R p p')
    (hq : Related ans Q R q q') : Related ans Q R (if c then p else q) (if c then p' else q') := by
  split
  · exact hp
  · exact hq

/-- One operation, in both states. -/
theorem perform {op : Op} {R : Res op → Res op → Prop}
    (h : ∀ s s', Q s s' → Q (ans s op).2 (ans s' op).2 ∧ R (ans s op).1 (ans s' op).1) :
    Related ans Q R (perform op) (perform op) := h

/-- Operations that are answered alike. -/
theorem of_obeys {may : Op → Prop}
    (hans : ∀ op, may op → ∀ s s', Q s s' → Q (ans s op).2 (ans s' op).2 ∧ (ans s op).1 = (ans s' op).1)
    {p : Prog Op Res α} (hp : p.Obeys (.flat may fun _ _ => True) (fun _ _ => True) ()) :
    Related ans Q Eq p p := by
  induction p with
  | ret a => exact pure rfl
  | call op k ih =>
    intro s s' hs
    obtain ⟨hstates, hanswers⟩ := hans op hp.1 s s' hs
    rw [eval_call, eval_call, hanswers]
    exact ih _ (hp.2 _ () trivial) _ _ hstates

end Related

end Prog

namespace Fallible

variable {σ Op : Type} {Res : Op → Type} {E α β α' β' : Type}

/-- Both are the same error, or neither is one. -/
def SameEnd (R : α → β → Prop) : Except E α → Except E β → Prop
  | .ok a, .ok b => R a b
  | .error e, .error e' => e = e'
  | _, _ => False

theorem sameEnd_eq {x y : Except E α} : SameEnd Eq x y ↔ x = y := by
  cases x <;> cases y <;> simp [SameEnd]

/-- `Prog.Related`, of programs that may stop. -/
def Related (ans : σ → (op : Op) → Res op × σ) (Q : σ → σ → Prop) (R : α → β → Prop) (p : Fallible Op Res E α)
    (p' : Fallible Op Res E β) : Prop :=
  Prog.Related ans Q (SameEnd R) p.run p'.run

namespace Related

variable {ans : σ → (op : Op) → Res op × σ} {Q : σ → σ → Prop} {R : α → β → Prop} {S : α' → β' → Prop}

theorem pure {a : α} {b : β} (h : R a b) :
    Related ans Q R (pure a : Fallible Op Res E α) (pure b : Fallible Op Res E β) :=
  Prog.Related.pure (R := SameEnd R) (a := .ok a) (b := .ok b) h

theorem throw {e : E} : Related ans Q R (throw e : Fallible Op Res E α) (throw e : Fallible Op Res E β) :=
  Prog.Related.pure (R := SameEnd R) (a := .error e) (b := .error e) rfl

theorem bind {p : Fallible Op Res E α} {p' : Fallible Op Res E β} {f : α → Fallible Op Res E α'}
    {f' : β → Fallible Op Res E β'} (hp : Related ans Q R p p')
    (hf : ∀ a b, R a b → Related ans Q S (f a) (f' b)) : Related ans Q S (p >>= f) (p' >>= f') := by
  unfold Related
  rw [ExceptT.run_bind, ExceptT.run_bind]
  refine Prog.Related.bind hp fun x y hxy => ?_
  match x, y, hxy with
  | .ok a, .ok b, hab => exact hf a b hab
  | .error e, .error _, rfl => exact Prog.Related.pure rfl

theorem check {x : Except E α} {y : Except E β} (h : SameEnd R x y) :
    Related ans Q R (check x : Fallible Op Res E α) (check y) := by
  match x, y, h with
  | .ok a, .ok b, hab => exact pure hab
  | .error e, .error _, rfl => exact throw

theorem reject {c c' : Prop} [Decidable c] [Decidable c'] {e : E} (h : c ↔ c') :
    Related ans Q Eq (reject c e : Fallible Op Res E Unit) (reject c' e) := by
  unfold Fallible.reject
  by_cases hc : c
  · rw [if_pos hc, if_pos (h.1 hc)]
    exact throw
  · rw [if_neg hc, if_neg fun hc' => hc (h.2 hc')]
    exact pure rfl

theorem orThrow {o : Option α} {e : E} : Related ans Q Eq (orThrow o e : Fallible Op Res E α) (orThrow o e) := by
  cases o with
  | none => exact throw
  | some a => exact pure rfl

theorem always {p : Prog Op Res α} {p' : Prog Op Res β} (h : Prog.Related ans Q R p p') :
    Related ans Q R (always p : Fallible Op Res E α) (always p') := by
  unfold Related Fallible.always
  rw [ExceptT.run_lift, ExceptT.run_lift, ← bind_pure_comp, ← bind_pure_comp]
  exact Prog.Related.bind h fun a b hab => Prog.Related.pure (R := SameEnd R) (a := .ok a) (b := .ok b) hab

theorem ite {c : Prop} [Decidable c] {p q : Fallible Op Res E α} {p' q' : Fallible Op Res E β}
    (hp : Related ans Q R p p') (hq : Related ans Q R q q') :
    Related ans Q R (if c then p else q) (if c then p' else q') := by
  split
  · exact hp
  · exact hq

end Related

end Fallible
