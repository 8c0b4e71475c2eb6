import Uwuubox.Prog.Pool

/-!
# Conditions on the schedule

Some races are ruled out by the order in which requests are served.  A condition on
the schedule says of each operation whether it may be performed now, given the shared state and
what the other requests in progress are about to do.

* `Pool.StepWhen`, `Pool.ReachableWhen` — the runs in which every operation meets the condition.
* `invariant_of_steps` — the proof rule of Owicki and Gries: every request keeps what it
  relies on by its own operations, and no operation disturbs what the others rely on.
* `reachableWhen_play` — a schedule that meets the condition, as a test.
-/

open Relation

namespace Pool

variable {σ ι Op : Type} {Res : Op → Type} {α : Type}

/-- One step of the server that meets the condition. -/
inductive StepWhen (cond : σ → List (ι × Op) → Op → Prop) (code : ι → Prog Op Res α)
    (exec : σ → (op : Op) → Res op → σ → Prop) (stop : Prop) :
    Pool σ ι Op Res α → Pool σ ι Op Res α → Prop
  | spawn (s : σ) (ts : List (ι × Prog Op Res α)) (i : ι) :
      StepWhen cond code exec stop ⟨s, ts⟩ ⟨s, (i, code i) :: ts⟩
  | act {s s' : σ} {pre post : List (ι × Prog Op Res α)} {i : ι} {op : Op}
      {k : Res op → Prog Op Res α} {r : Res op} : cond s (pending ⟨s, pre ++ post⟩) op →
      exec s op r s' →
      StepWhen cond code exec stop ⟨s, pre ++ (i, .call op k) :: post⟩ ⟨s', pre ++ (i, k r) :: post⟩
  | stop {s : σ} {pre post : List (ι × Prog Op Res α)} {i : ι} {op : Op}
      {k : Res op → Prog Op Res α} : stop →
      StepWhen cond code exec stop ⟨s, pre ++ (i, .call op k) :: post⟩ ⟨s, pre ++ post⟩

/-- The pools of the runs that meet the condition. -/
def ReachableWhen (cond : σ → List (ι × Op) → Op → Prop) (code : ι → Prog Op Res α)
    (exec : σ → (op : Op) → Res op → σ → Prop) (stop : Prop) (s₀ : σ) :
    Pool σ ι Op Res α → Prop :=
  ReflTransGen (StepWhen cond code exec stop) ⟨s₀, []⟩

variable {cond : σ → List (ι × Op) → Op → Prop} {code : ι → Prog Op Res α}
  {exec : σ → (op : Op) → Res op → σ → Prop} {stop : Prop}

/-- **The rule of Owicki and Gries.**  `Inv` is about the shared state, `Good s t` is what
a request `t` relies on in `s`.  An operation keeps both for the request that performs it, and
keeps `Good` for every other one. -/
theorem invariant_of_steps {Inv : σ → Prop} {Good : σ → ι × Prog Op Res α → Prop}
    (hspawn : ∀ s i, Inv s → Good s (i, code i))
    (hact : ∀ s s' i op k r others, Inv s → Good s (i, .call op k) → cond s others op →
      exec s op r s' → Inv s' ∧ Good s' (i, k r))
    (hother : ∀ s s' i op k r (ts : List (ι × Prog Op Res α)), Inv s → Good s (i, .call op k) →
      cond s (pending ⟨s, ts⟩) op → exec s op r s' → ∀ t ∈ ts, Good s t → Good s' t)
    {p q : Pool σ ι Op Res α} (hpq : ReflTransGen (StepWhen cond code exec stop) p q)
    (hp : Inv p.shared ∧ ∀ t ∈ p.threads, Good p.shared t) :
    Inv q.shared ∧ ∀ t ∈ q.threads, Good q.shared t := by
  induction hpq with
  | refl => exact hp
  | tail _ hlast ih =>
    obtain ⟨hinv, hall⟩ := ih
    cases hlast with
    | spawn s ts i =>
      refine ⟨hinv, fun t ht => ?_⟩
      rcases List.mem_cons.1 ht with rfl | ht
      · exact hspawn s i hinv
      · exact hall t ht
    | @act s s' pre post i op k r hcond hexec =>
      have hgood := hall (i, .call op k) List.mem_append_cons_self
      obtain ⟨hinv', hgood'⟩ := hact s s' i op k r _ hinv hgood hcond hexec
      have hrest : ∀ t ∈ pre ++ post, Good s' t := by
        intro t ht
        apply hother s s' i op k r (pre ++ post) hinv hgood hcond hexec t ht
        apply hall
        simp only [List.mem_append, List.mem_cons] at ht ⊢
        tauto
      refine ⟨hinv', fun t ht => ?_⟩
      rcases List.mem_append.1 ht with ht | ht
      · exact hrest t (List.mem_append.2 (.inl ht))
      · rcases List.mem_cons.1 ht with rfl | ht
        · exact hgood'
        · exact hrest t (List.mem_append.2 (.inr ht))
    | @stop s pre post i op k hs =>
      refine ⟨hinv, fun t ht => hall t ?_⟩
      simp only [List.mem_append, List.mem_cons] at ht ⊢
      tauto

/-! ## Schedules -/

section Play

variable {φ : Type} (code) (ans : φ → σ → (op : Op) → Res op × σ)

/-- The operation a turn performs meets the condition `ok`. -/
def turnWhen (ok : σ → List (ι × Op) → Op → Bool) (p : Pool σ ι Op Res α) : Turn ι φ → Bool
  | .spawn _ => true
  | .act n _ =>
    match p.threads[n]? with
    | some (_, .call op _) => ok p.shared (pending ⟨p.shared, p.threads.eraseIdx n⟩) op
    | _ => true

/-- Every operation of a schedule meets the condition. -/
def playWhen (ok : σ → List (ι × Op) → Op → Bool) : Pool σ ι Op Res α → List (Turn ι φ) → Bool
  | _, [] => true
  | p, t :: turns => turnWhen ok p t && playWhen ok (turn code ans p t) turns

variable {code ans} {ok : σ → List (ι × Op) → Op → Bool}
  (hok : ∀ s others op, ok s others op = true → cond s others op)
  (hans : ∀ how s op, exec s op (ans how s op).1 (ans how s op).2)

include hok hans

theorem turn_stepWhen (p : Pool σ ι Op Res α) (t : Turn ι φ) (h : turnWhen ok p t = true) :
    ReflTransGen (StepWhen cond code exec stop) p (turn code ans p t) := by
  obtain ⟨s, ts⟩ := p
  cases t with
  | spawn i => exact .single (.spawn s ts i)
  | act n how =>
    simp only [turn, turnWhen] at h ⊢
    split
    · rename_i i op k hget
      rw [hget] at h
      obtain ⟨hn, hget⟩ := List.getElem?_eq_some_iff.1 hget
      have hsplit : ts = ts.take n ++ (i, .call op k) :: ts.drop (n + 1) := by
        rw [← hget]
        exact (List.take_append_drop n ts).symm.trans (by rw [List.drop_eq_getElem_cons hn])
      rw [List.set_eq_take_append_cons_drop, if_pos hn]
      rw [List.eraseIdx_eq_take_drop_succ] at h
      apply ReflTransGen.single
      nth_rewrite 1 [hsplit]
      exact .act (hok _ _ _ h) (hans how s op)
    · exact .refl

/-- A schedule whose operations meet the condition ends in a pool that can be reached so. -/
theorem reachableWhen_play (s₀ : σ) (turns : List (Turn ι φ))
    (h : playWhen code ans ok ⟨s₀, []⟩ turns = true) :
    ReachableWhen cond code exec stop s₀ (play code ans s₀ turns) := by
  unfold play playFrom ReachableWhen
  generalize (⟨s₀, []⟩ : Pool σ ι Op Res α) = p at h ⊢
  induction turns generalizing p with
  | nil => exact .refl
  | cons t turns ih =>
    unfold playWhen at h
    rw [Bool.and_eq_true] at h
    exact (turn_stepWhen hok hans p t h.1).trans (ih (turn code ans p t) h.2)

end Play

end Pool
