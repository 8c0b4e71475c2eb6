import Mathlib

/-!
# Loops in a changing world

A loop that asks the world in each turn may find it changed: the turns see one world after the other.

* `Loop`, `Loop.run` — the turns of a loop, as many as there are worlds; a loop that has ended stays as it is.
* `Loop.run_keeps` — what every turn keeps, in every world that is seen, is kept.
* `Loop.run_ends` — a loop that comes closer to its end with every turn ends, in a world that stays as it is.
-/

/-- A loop over variables `σ` in worlds `Ω`: where it ends, and what one turn does. -/
structure Loop (Ω σ E : Type) where
  done : σ → Bool
  turn : Ω → σ → Except E σ

namespace Loop

variable {Ω σ E : Type} (loop : Loop Ω σ E)

/-- The turns that see these worlds. -/
def run : List Ω → σ → Except E σ
  | [], s => .ok s
  | w :: ws, s =>
    if loop.done s then .ok s
    else match loop.turn w s with
      | .ok s' => run ws s'
      | .error e => .error e

variable {loop} {ws : List Ω} {s s' : σ}

/-- **What every turn keeps is kept.** -/
theorem run_keeps {P : Ω → Prop} {I : σ → Prop}
    (hturn : ∀ w s s', P w → I s → loop.done s = false → loop.turn w s = .ok s' → I s') (hP : ∀ w ∈ ws, P w)
    (h : loop.run ws s = .ok s') (hs : I s) : I s' := by
  induction ws generalizing s with
  | nil =>
    cases h
    exact hs
  | cons w ws ih =>
    unfold run at h
    split at h
    · cases h
      exact hs
    · rename_i hdone
      split at h
      · rename_i t heq
        have ht : I t := hturn w s t (hP w List.mem_cons_self) hs (eq_false_of_ne_true hdone) heq
        exact ih (fun w hw => hP w (List.mem_cons_of_mem _ hw)) h ht
      · cases h

/-- **A loop that comes closer to its end ends**, in a world that stays as it is. -/
theorem run_ends {w : Ω} {I : σ → Prop} (μ : σ → ℕ)
    (hturn : ∀ s, I s → loop.done s = false → ∃ s', loop.turn w s = .ok s' ∧ I s' ∧ μ s' < μ s) {n : ℕ} (hn : μ s ≤ n)
    (hs : I s) : ∃ s', loop.run (List.replicate n w) s = .ok s' ∧ loop.done s' = true ∧ I s' := by
  induction n generalizing s with
  | zero =>
    refine ⟨s, rfl, ?_, hs⟩
    by_contra hdone
    obtain ⟨s', -, -, hlt⟩ := hturn s hs (eq_false_of_ne_true hdone)
    omega
  | succ n ih =>
    rw [List.replicate_succ]
    unfold run
    cases hdone : loop.done s with
    | true => exact ⟨s, rfl, hdone, hs⟩
    | false =>
      obtain ⟨t, heq, ht, hlt⟩ := hturn s hs hdone
      obtain ⟨s', hrun, hend⟩ := ih (by omega : μ t ≤ n) ht
      refine ⟨s', ?_, hend⟩
      simpa [heq] using hrun

end Loop
