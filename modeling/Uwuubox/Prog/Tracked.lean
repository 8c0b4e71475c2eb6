import Uwuubox.Prog.Protocol
import Uwuubox.Prog.Pool

/-!
# Requests that account for what they have done

In the ledger of `Prog.Pool` what a request owns is found in the proof.  Here it is part of the run:
every request carries a share, computed from the operations it has performed and their
answers.  So a run can be told by what the requests own: which operations are performed while
others own something, and what a request owns when it ends.

* `Tracked.Step` — one step: a request arrives, performs an operation that meets `cond`, or ends,
  wherever it is, with a share that `leave` accepts in the state.
* `Tracked.Reachable.invariant` — **the invariant rule**: what the operations keep, given that every
  request performs only what its share allows, holds of every reachable pool.
* `Tracked.Reachable.of_pool` — the shares restrict nothing.
* `Tracked.play` — an executable scheduler; `act_step`: a turn is a step; `reachable_play`: what it ends in is
  reachable.
* `Prog.tagged` — a program whose operations say whose they are, for conditions that depend on it.
-/

open Relation

namespace Prog

variable {ι Op Γ α : Type} {Res : Op → Type}

/-- Every operation with the label of the request that performs it. -/
def tagged (i : ι) : Prog Op Res α → Prog (ι × Op) (fun op => Res op.2) α
  | ret a => ret a
  | call op k => call (i, op) fun r => (k r).tagged i

/-- A protocol of tagged operations is one of the operations. -/
theorem Obeys.tagged {i : ι} {π : Protocol Γ (ι × Op) fun op => Res op.2} {fin : α → Γ → Prop}
    {p : Prog Op Res α} {γ : Γ}
    (h : p.Obeys ⟨fun γ op => π.may γ (i, op), fun γ op r γ' => π.next γ (i, op) r γ'⟩ fin γ) :
    (p.tagged i).Obeys π fin γ := by
  induction p generalizing γ with
  | ret a => exact h
  | call op k ih => exact ⟨h.1, fun r γ' hnext => ih r (h.2 r γ' hnext)⟩

end Prog

namespace Tracked

variable {σ ι Op G : Type} {Res : Op → Type} {α : Type} [AddCommMonoid G]

/-- Requests with their labels and shares. -/
abbrev Threads (ι G Op : Type) (Res : Op → Type) (α : Type) := List ((ι × G) × Prog Op Res α)

/-- What the requests own together. -/
def total (ts : Threads ι G Op Res α) : G := (ts.map fun t => t.1.2).sum

/-- One step of the server.  `cond s g f op` says whether a request with share `g` may perform `op`
in `s` while the others own `f`, and `leave s g` whether it may end. -/
inductive Step (track : G → (op : Op) → Res op → G) (cond : σ → G → G → Op → Prop) (leave : σ → G → Prop)
    (code : ι → Prog Op Res α) (exec : σ → (op : Op) → Res op → σ → Prop) :
    Pool σ (ι × G) Op Res α → Pool σ (ι × G) Op Res α → Prop
  /-- A new request arrives. -/
  | spawn (s : σ) (ts : Threads ι G Op Res α) (i : ι) :
      Step track cond leave code exec ⟨s, ts⟩ ⟨s, ((i, 0), code i) :: ts⟩
  /-- Some request performs its next operation. -/
  | act {s s' : σ} {pre post : Threads ι G Op Res α} {i : ι} {g : G} {op : Op}
      {k : Res op → Prog Op Res α} {r : Res op} : cond s g (total (pre ++ post)) op → exec s op r s' →
      Step track cond leave code exec ⟨s, pre ++ ((i, g), .call op k) :: post⟩
        ⟨s', pre ++ ((i, track g op r), k r) :: post⟩
  /-- A request ends: it has returned, has failed, or has been dropped. -/
  | leave {s : σ} {pre post : Threads ι G Op Res α} {i : ι} {g : G} {p : Prog Op Res α} : leave s g →
      Step track cond leave code exec ⟨s, pre ++ ((i, g), p) :: post⟩ ⟨s, pre ++ post⟩

/-- The pools of the runs whose steps meet the conditions. -/
def Reachable (track : G → (op : Op) → Res op → G) (cond : σ → G → G → Op → Prop) (leave : σ → G → Prop)
    (code : ι → Prog Op Res α) (exec : σ → (op : Op) → Res op → σ → Prop) (s₀ : σ) :
    Pool σ (ι × G) Op Res α → Prop :=
  ReflTransGen (Step track cond leave code exec) ⟨s₀, []⟩

/-- What a request with share `g` may perform, and the share it has after an expected answer. -/
def protocol (track : G → (op : Op) → Res op → G) (may : G → Op → Prop) (ok : (op : Op) → Res op → Prop) :
    Protocol G Op Res := ⟨may, fun g op r g' => ok op r ∧ g' = track g op r⟩

variable {track : G → (op : Op) → Res op → G} {cond : σ → G → G → Op → Prop} {leave : σ → G → Prop}
  {code : ι → Prog Op Res α} {exec : σ → (op : Op) → Res op → σ → Prop} {s₀ : σ}
  {ok : (op : Op) → Res op → Prop}

@[simp] theorem total_nil : total ([] : Threads ι G Op Res α) = 0 := rfl

theorem total_middle (pre post : Threads ι G Op Res α) (t : (ι × G) × Prog Op Res α) :
    total (pre ++ t :: post) = t.1.2 + total (pre ++ post) := by
  unfold total
  rw [List.map_append, List.map_cons, List.sum_append, List.sum_cons, List.map_append, List.sum_append]
  exact add_left_comm _ _ _

theorem total_cons (ts : Threads ι G Op Res α) (t : (ι × G) × Prog Op Res α) :
    total (t :: ts) = t.1.2 + total ts := total_middle [] ts t

/-- What one request owns is part of what they own together. -/
theorem le_total {G : Type} [AddCommMonoid G] [PartialOrder G] [CanonicallyOrderedAdd G]
    {ts : Threads ι G Op Res α} {t : (ι × G) × Prog Op Res α} (ht : t ∈ ts) : t.1.2 ≤ total ts := by
  obtain ⟨pre, post, rfl⟩ := List.append_of_mem ht
  rw [total_middle]
  exact le_self_add

/-- **The invariant rule.**  If request `i` performs only what `may i` allows with its share, as long as the
answers are expected, and every operation keeps the invariant of the total and is answered as
expected, then the invariant holds of every reachable pool, and what is left of every request
performs only what its share allows. -/
theorem Reachable.invariant {inv : σ → G → Prop} {may : ι → G → Op → Prop} {fin : ι → α → G → Prop}
    (h₀ : inv s₀ 0) (hcode : ∀ i, (code i).Obeys (protocol track (may i) ok) (fin i) 0)
    (hact : ∀ i s s' g f op r, may i g op → inv s (g + f) → cond s g f op → exec s op r s' →
      ok op r ∧ inv s' (track g op r + f))
    (hleave : ∀ s g f, leave s g → inv s (g + f) → inv s f)
    {p : Pool σ (ι × G) Op Res α} (hp : Reachable track cond leave code exec s₀ p) :
    inv p.shared (total p.threads) ∧
      ∀ t ∈ p.threads, t.2.Obeys (protocol track (may t.1.1) ok) (fin t.1.1) t.1.2 := by
  induction hp with
  | refl => exact ⟨h₀, fun t ht => absurd ht List.not_mem_nil⟩
  | tail _ hlast ih =>
    obtain ⟨hinv, hall⟩ := ih
    cases hlast with
    | spawn s ts i =>
      refine ⟨?_, fun t ht => ?_⟩
      · show inv s (total (((i, 0), code i) :: ts))
        rw [total_cons, zero_add]
        exact hinv
      · rcases List.mem_cons.1 ht with rfl | ht
        · exact hcode i
        · exact hall t ht
    | @act s s' pre post i g op k r hcond hexec =>
      obtain ⟨hmay, hrest⟩ := hall ((i, g), .call op k) List.mem_append_cons_self
      simp only [total_middle] at hinv
      obtain ⟨hok, hinv'⟩ := hact i s s' g _ op r hmay hinv hcond hexec
      refine ⟨?_, fun t ht => ?_⟩
      · simp only [total_middle]
        exact hinv'
      · rcases List.mem_append.1 ht with ht | ht
        · exact hall t (List.mem_append.2 (.inl ht))
        · rcases List.mem_cons.1 ht with rfl | ht
          · exact hrest r _ ⟨hok, rfl⟩
          · exact hall t (List.mem_append.2 (.inr (List.mem_cons_of_mem _ ht)))
    | @leave s pre post i g prog hg =>
      simp only [total_middle] at hinv
      refine ⟨hleave s g _ hg hinv, fun t ht => hall t ?_⟩
      rcases List.mem_append.1 ht with ht | ht
      · exact List.mem_append.2 (.inl ht)
      · exact List.mem_append.2 (.inr (List.mem_cons_of_mem _ ht))

/-- Requests without their shares. -/
def erase (ts : Threads ι G Op Res α) : List (ι × Prog Op Res α) := ts.map fun t => (t.1.1, t.2)

/-- **The shares restrict nothing**: a run of requests that may be stopped anywhere is a run of
requests with shares in which every operation and every end is allowed. -/
theorem Reachable.of_pool {stop : Prop} {p : Pool σ ι Op Res α}
    (hp : Pool.Reachable code exec stop s₀ p) :
    ∃ ts : Threads ι G Op Res α, erase ts = p.threads ∧
      Reachable track (fun _ _ _ _ => True) (fun _ _ => True) code exec s₀ ⟨p.shared, ts⟩ := by
  induction hp with
  | refl => exact ⟨[], rfl, .refl⟩
  | tail _ hlast ih =>
    obtain ⟨ts, hts, hreach⟩ := ih
    cases hlast with
    | spawn s us i => exact ⟨((i, 0), code i) :: ts, congrArg _ hts, hreach.tail (.spawn _ _ i)⟩
    | @act s s' pre post i op k r hexec =>
      obtain ⟨tpre, trest, rfl, hpre, hrest⟩ := List.map_eq_append_iff.1 hts
      obtain ⟨⟨⟨i', g⟩, prog⟩, tpost, rfl, ht, hpost⟩ := List.map_eq_cons_iff.1 hrest
      cases ht
      refine ⟨tpre ++ ((i', track g op r), k r) :: tpost, ?_, hreach.tail (.act trivial hexec)⟩
      unfold erase
      rw [List.map_append, List.map_cons, hpre, hpost]
    | @stop s pre post i op k hs =>
      obtain ⟨tpre, trest, rfl, hpre, hrest⟩ := List.map_eq_append_iff.1 hts
      obtain ⟨⟨⟨i', g⟩, prog⟩, tpost, rfl, ht, hpost⟩ := List.map_eq_cons_iff.1 hrest
      cases ht
      refine ⟨tpre ++ tpost, ?_, hreach.tail (.leave trivial)⟩
      unfold erase
      rw [List.map_append, hpre, hpost]

/-! ## Schedules -/

/-- One turn of a schedule: a request arrives, the request at place `n` performs its next
operation, answered as `how` says, or it ends. -/
inductive Turn (ι φ : Type) where
  | spawn (i : ι)
  | act (n : ℕ) (how : φ)
  | leave (n : ℕ)

section Play

variable {φ : Type} (track code) (ans : φ → σ → (op : Op) → Res op × σ)

/-- Take one turn; a turn of a request that has returned is skipped. -/
def turn (p : Pool σ (ι × G) Op Res α) : Turn ι φ → Pool σ (ι × G) Op Res α
  | .spawn i => ⟨p.shared, ((i, 0), code i) :: p.threads⟩
  | .act n how =>
    match p.threads[n]? with
    | some ((i, g), .call op k) =>
      ⟨(ans how p.shared op).2,
        p.threads.set n ((i, track g op (ans how p.shared op).1), k (ans how p.shared op).1)⟩
    | _ => p
  | .leave n => ⟨p.shared, p.threads.eraseIdx n⟩

/-- Play a schedule from a shared state with no request. -/
def play (s₀ : σ) (turns : List (Turn ι φ)) : Pool σ (ι × G) Op Res α :=
  turns.foldl (turn track code ans) ⟨s₀, []⟩

/-- A turn is one that the tests allow. -/
def turnOk (okAct : φ → σ → G → G → Op → Bool) (okLeave : σ → G → Bool) (p : Pool σ (ι × G) Op Res α) :
    Turn ι φ → Bool
  | .spawn _ => true
  | .act n how =>
    match p.threads[n]? with
    | some ((_, g), .call op _) => okAct how p.shared g (total (p.threads.eraseIdx n)) op
    | _ => true
  | .leave n =>
    match p.threads[n]? with
    | some t => okLeave p.shared t.1.2
    | none => true

/-- Every turn of a schedule is one that the tests allow. -/
def playOk (okAct : φ → σ → G → G → Op → Bool) (okLeave : σ → G → Bool) :
    Pool σ (ι × G) Op Res α → List (Turn ι φ) → Bool
  | _, [] => true
  | p, t :: turns => turnOk okAct okLeave p t && playOk okAct okLeave (turn track code ans p t) turns

variable {track code ans}

/-- A list around one of its places. -/
theorem split_at {β : Type} {ts : List β} {n : ℕ} {t : β} (hget : ts[n]? = some t) :
    n < ts.length ∧ ts = ts.take n ++ t :: ts.drop (n + 1) ∧ ts.eraseIdx n = ts.take n ++ ts.drop (n + 1) := by
  obtain ⟨hn, rfl⟩ := List.getElem?_eq_some_iff.1 hget
  refine ⟨hn, ?_, List.eraseIdx_eq_take_drop_succ _ _⟩
  rw [List.getElem_cons_drop, List.take_append_drop]

/-- **A turn of a request** that has not returned is a step. -/
theorem act_step {p : Pool σ (ι × G) Op Res α} {n : ℕ} {how : φ} {i : ι} {g : G} {op : Op}
    {k : Res op → Prog Op Res α} (hget : p.threads[n]? = some ((i, g), .call op k))
    (hcond : cond p.shared g (total (p.threads.eraseIdx n)) op)
    (hexec : exec p.shared op (ans how p.shared op).1 (ans how p.shared op).2) :
    Step track cond leave code exec p (turn track code ans p (.act n how)) := by
  obtain ⟨s, ts⟩ := p
  dsimp only at hget hcond hexec
  obtain ⟨hn, hts, herase⟩ := split_at hget
  rw [herase] at hcond
  simp only [turn, hget]
  rw [List.set_eq_take_append_cons_drop, if_pos hn]
  nth_rewrite 1 [hts]
  exact .act hcond hexec

variable {okAct : φ → σ → G → G → Op → Bool} {okLeave : σ → G → Bool}
  (hact : ∀ how s g f op, okAct how s g f op = true →
    cond s g f op ∧ exec s op (ans how s op).1 (ans how s op).2)
  (hleave : ∀ s g, okLeave s g = true → leave s g)

include hact hleave

/-- A turn is a step, or nothing happens. -/
theorem turn_step (p : Pool σ (ι × G) Op Res α) (t : Turn ι φ) (hok : turnOk okAct okLeave p t = true) :
    ReflTransGen (Step track cond leave code exec) p (turn track code ans p t) := by
  cases t with
  | spawn i => exact .single (.spawn p.shared p.threads i)
  | act n how =>
    cases hget : p.threads[n]? with
    | none =>
      simp only [turn, hget]
      exact .refl
    | some t =>
      obtain ⟨⟨i, g⟩, prog⟩ := t
      cases prog with
      | ret a =>
        simp only [turn, hget]
        exact .refl
      | call op k =>
        simp only [turnOk, hget] at hok
        obtain ⟨hcond, hexec⟩ := hact how p.shared g _ op hok
        exact .single (act_step hget hcond hexec)
  | leave n =>
    obtain ⟨s, ts⟩ := p
    simp only [turn, turnOk] at hok ⊢
    cases hget : ts[n]? with
    | none =>
      rw [List.eraseIdx_of_length_le (List.getElem?_eq_none_iff.1 hget)]
    | some t =>
      obtain ⟨⟨i, g⟩, prog⟩ := t
      obtain ⟨-, hts, herase⟩ := split_at hget
      rw [hget] at hok
      rw [herase]
      apply ReflTransGen.single
      nth_rewrite 1 [hts]
      exact .leave (hleave s g hok)

/-- **A schedule ends in a reachable pool.** -/
theorem reachable_play (s₀ : σ) (turns : List (Turn ι φ))
    (hok : playOk track code ans okAct okLeave ⟨s₀, []⟩ turns = true) :
    Reachable track cond leave code exec s₀ (play track code ans s₀ turns) := by
  unfold play Reachable
  generalize (⟨s₀, []⟩ : Pool σ (ι × G) Op Res α) = p at hok ⊢
  induction turns generalizing p with
  | nil => exact .refl
  | cons t turns ih =>
    unfold playOk at hok
    rw [Bool.and_eq_true] at hok
    exact (turn_step hact hleave p t hok.1).trans (ih (turn track code ans p t) hok.2)

end Play

end Tracked
