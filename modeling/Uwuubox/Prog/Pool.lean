import Uwuubox.Prog.Basic

/-!
# Interleaved programs and the ledger rule

A server runs any number of requests at once.  Each is a `Prog`; what is atomic
is the single operation, and between two operations of one request any other
request may run.  A `Pool` is the shared state together with the requests that
have been started, and `Pool.Step` lets any of them perform its next operation,
lets a new one start, or (where `stop` allows it) drops one between two of its
operations, as a panic or a closed connection does.

The proof method is a **ledger**.  Every request owns a share of some
commutative monoid `G` (in practice a multiset of tokens: "I hold a reference to
this object", "I must still write these bytes"), and one invariant `inv s g`
relates the shared state to the sum of all shares.

* `Prog.Owns inv exec fin p g` — with share `g` the program `p` keeps the
  invariant whatever the others own (`f` below is the sum of their shares), and
  returns with a share accepted by `fin`.  `owns_bind` sequences programs,
  `Owns.frame` adds what a program does not use.
* `Pool.ledger` — if the code of every request is good with share `0`, then in
  every reachable pool there are shares, one for each request, that make every
  remaining program good and the invariant true of their sum.
* `pending` — the operations the requests are about to perform.
* `guarded` — the execution relation restricted to steps that meet a condition
  on the state they start in.
* `Reachable.keeps` — what every operation keeps holds of every reachable pool.
* `logged` — the execution relation with a log beside the state; `Reachable.exists_log` says that
  it restricts nothing.
* `Pool.play` — an executable scheduler.  `reachable_play`: what it ends in is reachable,
  so that a schedule can be evaluated.  `playOk` checks a condition on its operations.
-/

open Relation

namespace Prog

variable {Op : Type} {Res : Op → Type} {α β σ G : Type} [AddCommMonoid G]

/-- Owning the share `g`, the program keeps `inv` at each of its operations,
whatever share `f` the other requests own, and returns with a share that `fin`
accepts. -/
def Owns (inv : σ → G → Prop) (exec : σ → (op : Op) → Res op → σ → Prop) (fin : α → G → Prop) :
    Prog Op Res α → G → Prop
  | ret a, g => fin a g
  | call op k, g => ∀ s r s' f, inv s (g + f) → exec s op r s' →
      ∃ g', inv s' (g' + f) ∧ Owns inv exec fin (k r) g'

variable {inv : σ → G → Prop} {exec : σ → (op : Op) → Res op → σ → Prop}
  {fin fin' : α → G → Prop}

@[simp] theorem owns_ret {a : α} {g : G} :
    (ret a : Prog Op Res α).Owns inv exec fin g ↔ fin a g := Iff.rfl

theorem owns_call {op : Op} {k : Res op → Prog Op Res α} {g : G} :
    (call op k).Owns inv exec fin g ↔ ∀ s r s' f, inv s (g + f) → exec s op r s' →
      ∃ g', inv s' (g' + f) ∧ (k r).Owns inv exec fin g' := Iff.rfl

/-- Sequencing: the first program hands its final share to the second. -/
theorem owns_bind {fin : β → G → Prop} (p : Prog Op Res α) (f : α → Prog Op Res β) (g : G) :
    (p >>= f).Owns inv exec fin g ↔
      p.Owns inv exec (fun a => (f a).Owns inv exec fin) g := by
  induction p generalizing g with
  | ret a => exact Iff.rfl
  | call op k ih => simp only [call_bind, owns_call, ih]

theorem Owns.mono {p : Prog Op Res α} {g : G} (h : p.Owns inv exec fin g)
    (hfin : ∀ a g, fin a g → fin' a g) : p.Owns inv exec fin' g := by
  induction p generalizing g with
  | ret a => exact hfin a g h
  | call op k ih =>
    intro s r s' f hinv hex
    obtain ⟨g', hinv', hk⟩ := h s r s' f hinv hex
    exact ⟨g', hinv', ih r hk⟩

/-- The frame rule: what a program does not use it still has when it returns. -/
theorem Owns.frame {p : Prog Op Res α} {g : G} (h : p.Owns inv exec fin g) (x : G) :
    p.Owns inv exec (fun a g' => ∃ g'', g' = g'' + x ∧ fin a g'') (g + x) := by
  induction p generalizing g with
  | ret a => exact ⟨g, rfl, h⟩
  | call op k ih =>
    intro s r s' f hinv hex
    rw [add_assoc] at hinv
    obtain ⟨g', hinv', hk⟩ := h s r s' (x + f) hinv hex
    exact ⟨g' + x, by rwa [add_assoc], ih r hk⟩

end Prog

/-- A shared state and the requests started so far, each with its label and
what is left of its program. -/
structure Pool (σ ι Op : Type) (Res : Op → Type) (α : Type) where
  /-- The state all requests share. -/
  shared : σ
  /-- The requests, the most recent first. -/
  threads : List (ι × Prog Op Res α)

/-- The steps of `exec` that start in a state meeting `cond`. -/
def guarded {σ Op : Type} {Res : Op → Type} (cond : σ → Op → Prop)
    (exec : σ → (op : Op) → Res op → σ → Prop) : σ → (op : Op) → Res op → σ → Prop :=
  fun s op r s' => cond s op ∧ exec s op r s'

/-- The steps of `exec`, with a log of the operations and their answers. -/
def logged {σ Op L : Type} {Res : Op → Type} (record : L → (op : Op) → Res op → L)
    (exec : σ → (op : Op) → Res op → σ → Prop) : σ × L → (op : Op) → Res op → σ × L → Prop :=
  fun s op r s' => exec s.1 op r s'.1 ∧ s'.2 = record s.2 op r

namespace Pool

/-- A pairing of a list with a middle element splits around it. -/
private theorem forall₂_split {A B : Type} {R : A → B → Prop} {pre post : List A} {a : A} :
    ∀ {l : List B}, List.Forall₂ R (pre ++ a :: post) l → ∃ bpre b bpost, l = bpre ++ b :: bpost ∧
      List.Forall₂ R pre bpre ∧ R a b ∧ List.Forall₂ R post bpost := by
  induction pre with
  | nil =>
    rintro l (_ | ⟨hb, hpost⟩)
    exact ⟨[], _, _, rfl, .nil, hb, hpost⟩
  | cons c pre ih =>
    rintro l (_ | ⟨hc, hrest⟩)
    obtain ⟨bpre, b, bpost, rfl, hpre, hb, hpost⟩ := ih hrest
    exact ⟨_ :: bpre, b, bpost, rfl, .cons hc hpre, hb, hpost⟩

variable {σ ι Op : Type} {Res : Op → Type} {α G : Type}

/-- One step of the server. -/
inductive Step (code : ι → Prog Op Res α) (exec : σ → (op : Op) → Res op → σ → Prop)
    (stop : Prop) : Pool σ ι Op Res α → Pool σ ι Op Res α → Prop
  /-- A new request arrives. -/
  | spawn (s : σ) (ts : List (ι × Prog Op Res α)) (i : ι) :
      Step code exec stop ⟨s, ts⟩ ⟨s, (i, code i) :: ts⟩
  /-- Some request performs its next operation. -/
  | act {s s' : σ} {pre post : List (ι × Prog Op Res α)} {i : ι} {op : Op}
      {k : Res op → Prog Op Res α} {r : Res op} : exec s op r s' →
      Step code exec stop ⟨s, pre ++ (i, .call op k) :: post⟩ ⟨s', pre ++ (i, k r) :: post⟩
  /-- A request ends between two of its operations. -/
  | stop {s : σ} {pre post : List (ι × Prog Op Res α)} {i : ι} {op : Op}
      {k : Res op → Prog Op Res α} : stop →
      Step code exec stop ⟨s, pre ++ (i, .call op k) :: post⟩ ⟨s, pre ++ post⟩

/-- The pools the server can be in, started on `s₀` with no request. -/
def Reachable (code : ι → Prog Op Res α) (exec : σ → (op : Op) → Res op → σ → Prop)
    (stop : Prop) (s₀ : σ) : Pool σ ι Op Res α → Prop :=
  ReflTransGen (Step code exec stop) ⟨s₀, []⟩

/-- No request is in progress: all have returned. -/
def Quiet (p : Pool σ ι Op Res α) : Prop := ∀ t ∈ p.threads, ∃ a, t.2 = .ret a

/-- The operations the requests in progress are about to perform. -/
def pending (p : Pool σ ι Op Res α) : List (ι × Op) :=
  p.threads.filterMap fun t => match t.2 with
    | .call op _ => some (t.1, op)
    | .ret _ => none

theorem mem_pending {p : Pool σ ι Op Res α} {i : ι} {op : Op} :
    (i, op) ∈ p.pending ↔ ∃ k, (i, .call op k) ∈ p.threads := by
  unfold pending
  rw [List.mem_filterMap]
  constructor
  · rintro ⟨⟨j, prog⟩, ht, hsome⟩
    cases prog with
    | ret a => cases hsome
    | call op' k =>
      cases hsome
      exact ⟨k, ht⟩
  · rintro ⟨k, ht⟩
    exact ⟨_, ht, rfl⟩

variable [AddCommMonoid G] {code : ι → Prog Op Res α}
  {exec : σ → (op : Op) → Res op → σ → Prop} {stop : Prop} {s₀ : σ}
  {inv : σ → G → Prop} {fin : ι → α → G → Prop}

/-- The shares of a pool: one for each request, good for what is left of it, and
together satisfying the invariant. -/
def Balanced (inv : σ → G → Prop) (exec : σ → (op : Op) → Res op → σ → Prop)
    (fin : ι → α → G → Prop) (p : Pool σ ι Op Res α) (gs : List G) : Prop :=
  List.Forall₂ (fun t g => t.2.Owns inv exec (fin t.1) g) p.threads gs ∧ inv p.shared gs.sum

/-- One step keeps a balanced pool balanced. -/
theorem Step.balanced (hcode : ∀ i, (code i).Owns inv exec (fin i) 0)
    (hstop : stop → ∀ s g f, inv s (g + f) → inv s f) {p q : Pool σ ι Op Res α}
    (h : Step code exec stop p q) {gs : List G} (hp : Balanced inv exec fin p gs) :
    ∃ gs', Balanced inv exec fin q gs' := by
  obtain ⟨hall, hinv⟩ := hp
  cases h with
  | spawn s ts i => exact ⟨0 :: gs, .cons (hcode i) hall, by simpa using hinv⟩
  | @act s s' pre post i op k r hex =>
    obtain ⟨gpre, g, gpost, rfl, hpre, hg, hpost⟩ := forall₂_split hall
    have hsum : ∀ x : G, (gpre ++ x :: gpost).sum = x + (gpre.sum + gpost.sum) := by
      intro x
      rw [List.sum_append, List.sum_cons]
      exact add_left_comm _ _ _
    rw [hsum] at hinv
    obtain ⟨g', hinv', hk⟩ := hg s r s' _ hinv hex
    exact ⟨gpre ++ g' :: gpost, List.rel_append hpre (.cons hk hpost), by rw [hsum]; exact hinv'⟩
  | @stop s pre post i op k hs =>
    obtain ⟨gpre, g, gpost, rfl, hpre, hg, hpost⟩ := forall₂_split hall
    refine ⟨gpre ++ gpost, List.rel_append hpre hpost, ?_⟩
    rw [List.sum_append, List.sum_cons, add_left_comm] at hinv
    rw [List.sum_append]
    exact hstop hs s g _ hinv

/-- **The ledger rule.**  Every reachable pool is balanced. -/
theorem ledger (h₀ : inv s₀ 0) (hcode : ∀ i, (code i).Owns inv exec (fin i) 0)
    (hstop : stop → ∀ s g f, inv s (g + f) → inv s f) {p : Pool σ ι Op Res α}
    (hp : Reachable code exec stop s₀ p) : ∃ gs, Balanced inv exec fin p gs := by
  induction hp with
  | refl => exact ⟨[], .nil, h₀⟩
  | tail _ hstep ih =>
    obtain ⟨gs, hgs⟩ := ih
    exact hstep.balanced hcode hstop hgs

/-- A returned request of a balanced pool owns a share its `fin` accepts, and
that share is part of the total. -/
theorem Balanced.returned {p : Pool σ ι Op Res α} {gs : List G}
    (h : Balanced inv exec fin p gs) {i : ι} {a : α} (hi : (i, Prog.ret a) ∈ p.threads) :
    ∃ g f, fin i a g ∧ inv p.shared (g + f) := by
  obtain ⟨hall, hinv⟩ := h
  obtain ⟨pre, post, hsplit⟩ := List.append_of_mem hi
  rw [hsplit] at hall
  obtain ⟨gpre, g, gpost, rfl, -, hg, -⟩ := forall₂_split hall
  refine ⟨g, gpre.sum + gpost.sum, hg, ?_⟩
  rw [List.sum_append, List.sum_cons, add_left_comm] at hinv
  exact hinv

/-- When all requests have returned, what their final shares have in common holds of the
total. -/
theorem Balanced.quiet {p : Pool σ ι Op Res α} {gs : List G} (h : Balanced inv exec fin p gs)
    (hquiet : p.Quiet) {P : G → Prop} (hzero : P 0) (hadd : ∀ g f, P g → P f → P (g + f))
    (hfin : ∀ i a g, (i, .ret a) ∈ p.threads → fin i a g → P g) : P gs.sum := by
  obtain ⟨s, ts⟩ := p
  obtain ⟨hall, -⟩ := h
  unfold Quiet at hquiet
  simp only at hall hquiet hfin
  induction hall with
  | nil => exact hzero
  | @cons t g ts gs ht _ ih =>
    rw [List.sum_cons]
    apply hadd
    · obtain ⟨i, prog⟩ := t
      obtain ⟨a, rfl⟩ := hquiet (i, prog) List.mem_cons_self
      exact hfin i a g List.mem_cons_self ht
    · exact ih (fun t ht => hquiet t (List.mem_cons_of_mem _ ht))
        fun i a g hi => hfin i a g (List.mem_cons_of_mem _ hi)

/-- **At most one.**  Where the shares are numbers that sum up to at most one, at most one request
can have what takes a share. -/
theorem Balanced.pairwise {inv : σ → ℕ → Prop} {fin : ι → α → ℕ → Prop} {p : Pool σ ι Op Res α}
    {gs : List ℕ} (h : Balanced inv exec fin p gs) (hsum : gs.sum ≤ 1)
    {P : ι × Prog Op Res α → Prop}
    (hP : ∀ t g, t.2.Owns inv exec (fin t.1) g → P t → 0 < g) :
    p.threads.Pairwise fun t u => ¬ (P t ∧ P u) := by
  obtain ⟨s, ts⟩ := p
  obtain ⟨hall, -⟩ := h
  simp only at hall
  induction hall with
  | nil => exact .nil
  | @cons t g ts gs ht hrest ih =>
    rw [List.sum_cons] at hsum
    refine .cons (fun u hu => ?_) (ih (by omega))
    rintro ⟨hPt, hPu⟩
    obtain ⟨pre, post, rfl⟩ := List.append_of_mem hu
    obtain ⟨gpre, x, gpost, rfl, -, hx, -⟩ := forall₂_split hrest
    have hg := hP t g ht hPt
    have hgu := hP u x hx hPu
    rw [List.sum_append, List.sum_cons] at hsum
    omega

/-! ## What every operation keeps -/

/-- What every operation keeps holds of every reachable pool, whatever the requests are. -/
theorem Reachable.keeps {Inv : σ → Prop} (h₀ : Inv s₀) (hstep : ∀ s op r s', exec s op r s' → Inv s → Inv s')
    {p : Pool σ ι Op Res α} (hp : Reachable code exec stop s₀ p) : Inv p.shared := by
  induction hp with
  | refl => exact h₀
  | tail _ hlast ih =>
    cases hlast with
    | spawn => exact ih
    | act hexec => exact hstep _ _ _ _ hexec ih
    | stop => exact ih

/-! ## Logs -/

section Logs

omit [AddCommMonoid G]

variable {L : Type} {record : L → (op : Op) → Res op → L}

/-- A log restricts nothing: every pool that can be reached without it can be reached with it. -/
theorem Reachable.exists_log {p : Pool σ ι Op Res α} (hp : Reachable code exec stop s₀ p) (l₀ : L) :
    ∃ l, Reachable code (logged record exec) stop (s₀, l₀) ⟨(p.shared, l), p.threads⟩ := by
  induction hp with
  | refl => exact ⟨l₀, .refl⟩
  | tail _ hstep ih =>
    obtain ⟨l, hl⟩ := ih
    cases hstep with
    | spawn s ts i => exact ⟨l, hl.tail (.spawn _ _ i)⟩
    | @act s s' pre post i op k r hexec => exact ⟨record l op r, hl.tail (.act ⟨hexec, rfl⟩)⟩
    | stop hs => exact ⟨l, hl.tail (.stop hs)⟩

end Logs

/-! ## Schedules -/

/-- One turn of a schedule: a request arrives, or the request at place `n` performs its next
operation, answered as `how` says. -/
inductive Turn (ι φ : Type) where
  | spawn (i : ι)
  | act (n : ℕ) (how : φ)

section Play

variable {φ : Type} (code) (ans : φ → σ → (op : Op) → Res op × σ)

/-- Take one turn; a turn of a request that has returned is skipped. -/
def turn (p : Pool σ ι Op Res α) : Turn ι φ → Pool σ ι Op Res α
  | .spawn i => ⟨p.shared, (i, code i) :: p.threads⟩
  | .act n how =>
    match p.threads[n]? with
    | some (i, .call op k) =>
      ⟨(ans how p.shared op).2, p.threads.set n (i, k (ans how p.shared op).1)⟩
    | _ => p

/-- Play a schedule. -/
def playFrom (p : Pool σ ι Op Res α) (turns : List (Turn ι φ)) : Pool σ ι Op Res α :=
  turns.foldl (turn code ans) p

/-- Play a schedule from a shared state with no request. -/
def play (s₀ : σ) (turns : List (Turn ι φ)) : Pool σ ι Op Res α := playFrom code ans ⟨s₀, []⟩ turns

/-- `Quiet`, as a test. -/
def allReturned (p : Pool σ ι Op Res α) : Bool :=
  p.threads.all fun t => match t.2 with
    | .ret _ => true
    | .call _ _ => false

theorem quiet_of_allReturned {p : Pool σ ι Op Res α} (h : p.allReturned = true) : p.Quiet := by
  rintro ⟨i, prog⟩ ht
  have hret := List.all_eq_true.1 h _ ht
  cases prog with
  | ret a => exact ⟨a, rfl⟩
  | call op k => cases hret

/-- The operation a turn performs is one that `ok` allows. -/
def turnOk (ok : σ → Op → Bool) (p : Pool σ ι Op Res α) : Turn ι φ → Bool
  | .spawn _ => true
  | .act n _ =>
    match p.threads[n]? with
    | some (_, .call op _) => ok p.shared op
    | _ => true

/-- Every operation of a schedule is one that `ok` allows. -/
def playOk (ok : σ → Op → Bool) : Pool σ ι Op Res α → List (Turn ι φ) → Bool
  | _, [] => true
  | p, t :: turns => turnOk ok p t && playOk ok (turn code ans p t) turns

variable {code ans} {ok : σ → Op → Bool}
  (hans : ∀ how s op, ok s op = true → exec s op (ans how s op).1 (ans how s op).2)

include hans

/-- A turn is a step, or nothing happens. -/
theorem turn_step (p : Pool σ ι Op Res α) (t : Turn ι φ) (hok : turnOk ok p t = true) :
    ReflTransGen (Step code exec stop) p (turn code ans p t) := by
  obtain ⟨s, ts⟩ := p
  cases t with
  | spawn i => exact .single (.spawn s ts i)
  | act n how =>
    simp only [turn, turnOk] at hok ⊢
    split
    · rename_i i op k hget
      rw [hget] at hok
      obtain ⟨hn, hget⟩ := List.getElem?_eq_some_iff.1 hget
      have hsplit : ts = ts.take n ++ (i, .call op k) :: ts.drop (n + 1) := by
        rw [← hget]
        exact (List.take_append_drop n ts).symm.trans (by rw [List.drop_eq_getElem_cons hn])
      rw [List.set_eq_take_append_cons_drop, if_pos hn]
      apply ReflTransGen.single
      nth_rewrite 1 [hsplit]
      exact .act (hans how s op hok)
    · exact .refl

/-- **A schedule ends in a reachable pool.** -/
theorem reachable_play (s₀ : σ) (turns : List (Turn ι φ))
    (hok : playOk code ans ok ⟨s₀, []⟩ turns = true) :
    Reachable code exec stop s₀ (play code ans s₀ turns) := by
  unfold play playFrom Reachable
  generalize (⟨s₀, []⟩ : Pool σ ι Op Res α) = p at hok ⊢
  induction turns generalizing p with
  | nil => exact .refl
  | cons t turns ih =>
    unfold playOk at hok
    rw [Bool.and_eq_true] at hok
    exact (turn_step hans p t hok.1).trans (ih (turn code ans p t) hok.2)

end Play

end Pool
