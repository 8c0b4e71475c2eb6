import Uwuubox.Prog.Fallible
import Uwuubox.Prog.Tracked

/-!
# Requests that act on what they have been told

A check that comes before an action is worth something only if what it has looked at is still so when
the action is performed.  Here a request carries the facts that the answers to its operations have
shown it, and an action has to be justified by them.

* `Prog.Justified` — whatever is known, as long as the answers only show what is known, the program
  performs only what this justifies.  Nothing has to be said about how knowledge grows: the rules are
  those of a protocol with one phase.
* `Tracked.Reachable.justified` — in a run in which requests carry the facts, whatever a request is
  about to perform is justified by its facts.
* `Tracked.Reachable.holds` — what is true when it is shown and stays true is true of all facts.
* `Tracked.Reachable.of_shares` — what requests with shares do, requests without them can do.
* `Tracked.Reachable.relabel` — what some of the requests do, the requests can do.
* `Tracked.reachable_inTurn` — requests one after the other are a run.
* `Fallible.Conforms` — what a handler performs and returns while the answers are as expected, with a rule for each of
  its lines.
-/

open Relation

namespace Prog

variable {Op F α : Type} {Res : Op → Type}

/-- The answer shows only what is known. -/
def Known (facts : (op : Op) → Res op → List F) (known : F → Prop) (op : Op) (r : Res op) : Prop :=
  ∀ fact ∈ facts op r, known fact

/-- What a program may perform that knows what it is told, where answers are as `ok` says. -/
def justice (ok : (op : Op) → Res op → Prop) (facts : (op : Op) → Res op → List F)
    (may : (F → Prop) → Op → Prop) (known : F → Prop) : Protocol Unit Op Res :=
  .flat (may known) fun op r => ok op r ∧ Known facts known op r

/-- Knowing what it is told, the program performs only what this justifies. -/
def Justified (ok : (op : Op) → Res op → Prop) (facts : (op : Op) → Res op → List F)
    (may : (F → Prop) → Op → Prop) (p : Prog Op Res α) : Prop :=
  ∀ known, p.Obeys (justice ok facts may known) (fun _ _ => True) ()

end Prog

/-! ## Handlers -/

namespace Fallible

variable {Op : Type} {Res : Op → Type} {E α β : Type} {may may' : Op → Prop} {ok ok' : (op : Op) → Res op → Prop}
  {P P' : α → Prop} {Q : β → Prop}

/-- While the answers are as `ok` says, the program performs only what `may` allows, and returns what `P` accepts. -/
def Conforms (may : Op → Prop) (ok : (op : Op) → Res op → Prop) (P : α → Prop) (p : Fallible Op Res E α) : Prop :=
  p.Obeys (.flat may ok) (fun a _ => P a) (fun _ _ => True) ()

namespace Conforms

theorem run {p : Fallible Op Res E α} (hp : Conforms may ok P p) :
    Prog.Obeys (.flat may ok) (fun _ _ => True) p.run () := Prog.Obeys.mono hp fun _ _ _ => trivial

/-- What the program performs, and what it returns whatever it performs. -/
theorem of_parts {p : Fallible Op Res E α}
    (hmay : Prog.Obeys (.flat may fun _ _ => True) (fun _ _ => True) p.run ())
    (hP : Ends (fun (_ : Unit) op r _ => ok op r) (fun a _ => P a) p) : Conforms may ok P p :=
  Prog.Obeys.restrict hmay (hP ())

theorem mono {p : Fallible Op Res E α} (hp : Conforms may ok P p) (h : ∀ a, P a → P' a) : Conforms may ok P' p :=
  Fallible.Obeys.mono hp (fun a _ => h a) fun _ _ h => h

theorem pure {a : α} (h : P a) : Conforms may ok P (pure a : Fallible Op Res E α) := h

theorem throw {e : E} : Conforms may ok P (throw e : Fallible Op Res E α) := trivial

theorem bind {p : Fallible Op Res E α} {f : α → Fallible Op Res E β} (hp : Conforms may ok P p)
    (hf : ∀ a, P a → Conforms may ok Q (f a)) : Conforms may ok Q (p >>= f) :=
  (obeys_bind _ _).2 (Fallible.Obeys.mono hp (fun a _ => hf a) fun _ _ h => h)

theorem ite {c : Prop} [Decidable c] {p q : Fallible Op Res E α} (hp : c → Conforms may ok P p)
    (hq : ¬ c → Conforms may ok P q) : Conforms may ok P (if c then p else q) := by
  by_cases hc : c
  · rw [if_pos hc]
    exact hp hc
  · rw [if_neg hc]
    exact hq hc

theorem reject {c : Prop} [Decidable c] {e : E} {f : Unit → Fallible Op Res E β}
    (hf : ¬ c → Conforms may ok Q (f ())) : Conforms may ok Q (Fallible.reject c e >>= f) :=
  bind (P := fun _ => ¬ c) (obeys_reject.2 ⟨fun _ => trivial, fun h => h⟩) fun _ h => hf h

theorem orThrow {o : Option α} {e : E} {f : α → Fallible Op Res E β}
    (hf : ∀ a, o = some a → Conforms may ok Q (f a)) : Conforms may ok Q (Fallible.orThrow o e >>= f) :=
  bind (P := fun a => o = some a) (obeys_orThrow.2 ⟨fun _ => trivial, fun _ h => h⟩) hf

theorem check {x : Except E α} {f : α → Fallible Op Res E β}
    (hf : ∀ a, x = .ok a → Conforms may ok Q (f a)) : Conforms may ok Q (Fallible.check x >>= f) :=
  bind (P := fun a => x = .ok a) (obeys_check.2 ⟨fun _ _ => trivial, fun _ h => h⟩) hf

/-- A step that does not fail. -/
theorem always {p : Prog Op Res α} {f : α → Fallible Op Res E β}
    (hp : p.Obeys (.flat may ok) (fun a _ => P a) ()) (hf : ∀ a, P a → Conforms may ok Q (f a)) :
    Conforms may ok Q (Fallible.always p >>= f) := bind (P := P) (obeys_always.2 hp) hf

end Conforms

end Fallible

/-! ## Runs -/

namespace Tracked

variable {σ ι Op F : Type} {Res : Op → Type} {α : Type}

/-- The facts that a request has after an answer. -/
def learn (facts : (op : Op) → Res op → List F) (g : Multiset F) (op : Op) (r : Res op) : Multiset F :=
  g + ↑(facts op r)

theorem mem_learn {facts : (op : Op) → Res op → List F} {g : Multiset F} {op : Op} {r : Res op} {fact : F} :
    fact ∈ learn facts g op r ↔ fact ∈ g ∨ fact ∈ facts op r := by
  unfold learn
  rw [Multiset.mem_add, Multiset.mem_coe]

section Facts

variable {facts : (op : Op) → Res op → List F} {cond : σ → Multiset F → Multiset F → Op → Prop}
  {leave : σ → Multiset F → Prop} {code : ι → Prog Op Res α}
  {exec : σ → (op : Op) → Res op → σ → Prop} {s₀ : σ} {p : Pool σ (ι × Multiset F) Op Res α}

/-- **Whatever a request is about to perform is justified by what it has been told.** -/
theorem Reachable.justified {ok : (op : Op) → Res op → Prop} {may : ι → (F → Prop) → Op → Prop}
    (hok : ∀ s op r s', exec s op r s' → ok op r) (hcode : ∀ i, (code i).Justified ok facts (may i))
    (hp : Reachable (learn facts) cond leave code exec s₀ p) {i : ι} {g : Multiset F} {op : Op}
    {k : Res op → Prog Op Res α} (ht : ((i, g), .call op k) ∈ p.threads) : may i (· ∈ g) op := by
  suffices hall : ∀ t ∈ p.threads, ∀ known : F → Prop, (∀ fact ∈ t.1.2, known fact) →
      t.2.Obeys (Prog.justice ok facts (may t.1.1) known) (fun _ _ => True) () from
    (hall _ ht (· ∈ g) fun _ hfact => hfact).1
  clear ht
  induction hp with
  | refl => exact fun t ht => absurd ht List.not_mem_nil
  | tail _ hlast ih =>
    cases hlast with
    | spawn s ts j =>
      intro t ht known _
      rcases List.mem_cons.1 ht with rfl | ht
      · exact hcode j known
      · exact ih t ht known ‹_›
    | @act s s' pre post j g' op' k' r hcond hexec =>
      intro t ht known hknown
      rcases List.mem_append.1 ht with ht | ht
      · exact ih t (List.mem_append.2 (.inl ht)) known hknown
      · rcases List.mem_cons.1 ht with rfl | ht
        · -- who is told more knew less before
          have hbefore := ih ((j, g'), .call op' k') List.mem_append_cons_self known
            fun fact hfact => hknown fact (mem_learn.2 (.inl hfact))
          exact hbefore.2 r () ⟨hok s op' r s' hexec, fun fact hfact => hknown fact (mem_learn.2 (.inr hfact))⟩
        · exact ih t (List.mem_append.2 (.inr (List.mem_cons_of_mem _ ht))) known hknown
    | @leave s pre post j g' prog hg =>
      intro t ht known hknown
      refine ih t ?_ known hknown
      rcases List.mem_append.1 ht with ht | ht
      · exact List.mem_append.2 (.inl ht)
      · exact List.mem_append.2 (.inr (List.mem_cons_of_mem _ ht))

/-- **Facts hold**: those that hold when they are shown and are kept by every operation.  Both may be
shown of the states that the run can be in. -/
theorem Reachable.holds (K : σ → Prop) (Holds : σ → F → Prop)
    (hK : ∀ q, Reachable (learn facts) cond leave code exec s₀ q → K q.shared)
    (hnew : ∀ s op r s', K s → K s' → exec s op r s' → ∀ fact ∈ facts op r, Holds s' fact)
    (hkeep : ∀ s op r s' fact, K s → K s' → exec s op r s' → Holds s fact → Holds s' fact)
    (hp : Reachable (learn facts) cond leave code exec s₀ p) :
    ∀ t ∈ p.threads, ∀ fact ∈ t.1.2, Holds p.shared fact := by
  induction hp with
  | refl => exact fun t ht => absurd ht List.not_mem_nil
  | tail hinit hlast ih =>
    have hs := hK _ hinit
    have hs' := hK _ (hinit.tail hlast)
    cases hlast with
    | spawn s ts j =>
      intro t ht fact hfact
      rcases List.mem_cons.1 ht with rfl | ht
      · exact absurd hfact (Multiset.notMem_zero fact)
      · exact ih t ht fact hfact
    | @act s s' pre post j g' op' k' r hcond hexec =>
      have hold : ∀ t ∈ pre ++ ((j, g'), .call op' k') :: post, ∀ fact ∈ t.1.2, Holds s' fact :=
        fun t ht fact hfact => hkeep s op' r s' fact hs hs' hexec (ih t ht fact hfact)
      intro t ht fact hfact
      rcases List.mem_append.1 ht with ht | ht
      · exact hold t (List.mem_append.2 (.inl ht)) fact hfact
      · rcases List.mem_cons.1 ht with rfl | ht
        · rcases mem_learn.1 hfact with hfact | hfact
          · exact hold _ List.mem_append_cons_self fact hfact
          · exact hnew s op' r s' hs hs' hexec fact hfact
        · exact hold t (List.mem_append.2 (.inr (List.mem_cons_of_mem _ ht))) fact hfact
    | @leave s pre post j g' prog hg =>
      intro t ht
      refine ih t ?_
      rcases List.mem_append.1 ht with ht | ht
      · exact List.mem_append.2 (.inl ht)
      · exact List.mem_append.2 (.inr (List.mem_cons_of_mem _ ht))

end Facts

section Shares

variable {G : Type} [AddCommMonoid G] {track : G → (op : Op) → Res op → G} {cond : σ → G → G → Op → Prop}
  {leave : σ → G → Prop} {code : ι → Prog Op Res α} {exec : σ → (op : Op) → Res op → σ → Prop} {s₀ : σ}

/-- **What requests with shares do, requests without them can do**: those that have ended may still be
there. -/
theorem Reachable.of_shares {p : Pool σ (ι × G) Op Res α} (hp : Reachable track cond leave code exec s₀ p) :
    ∃ ts, Pool.Reachable code exec True s₀ ⟨p.shared, ts⟩ ∧ (erase p.threads).Sublist ts := by
  induction hp with
  | refl => exact ⟨[], .refl, List.Sublist.slnil⟩
  | tail _ hlast ih =>
    obtain ⟨ts, hreach, hsub⟩ := ih
    cases hlast with
    | spawn s us i => exact ⟨(i, code i) :: ts, hreach.tail (.spawn _ _ i), hsub.cons_cons _⟩
    | @act s s' pre post i g op k r hcond hexec =>
      unfold erase at hsub
      rw [List.map_append, List.map_cons, List.append_sublist_iff] at hsub
      obtain ⟨tpre, trest, rfl, hpre, hrest⟩ := hsub
      obtain ⟨tskip, tpost, rfl, hmem, hpost⟩ := List.cons_sublist_iff.1 hrest
      obtain ⟨tleft, tright, rfl⟩ := List.append_of_mem hmem
      refine ⟨(tpre ++ tleft) ++ (i, k r) :: (tright ++ tpost), ?_, ?_⟩
      · refine hreach.tail ?_
        have hstep : Pool.Step code exec True ⟨s, (tpre ++ tleft) ++ (i, .call op k) :: (tright ++ tpost)⟩
            ⟨s', (tpre ++ tleft) ++ (i, k r) :: (tright ++ tpost)⟩ := .act hexec
        simpa using hstep
      · unfold erase
        rw [List.map_append, List.map_cons]
        refine List.Sublist.append (hpre.trans (List.sublist_append_left _ _)) ?_
        exact (hpost.trans (List.sublist_append_right _ _)).cons_cons _
    | @leave s pre post i g prog hg =>
      refine ⟨ts, hreach, List.Sublist.trans ?_ hsub⟩
      unfold erase
      rw [List.map_append, List.map_append]
      exact List.Sublist.append (List.Sublist.refl _) (List.sublist_cons_self _ _)

end Shares

section Relabel

variable {κ G : Type} (f : κ → ι)

/-- Requests under other names. -/
def relabel (ts : Threads κ G Op Res α) : Threads ι G Op Res α := ts.map fun t => ((f t.1.1, t.1.2), t.2)

@[simp] theorem relabel_append (pre post : Threads κ G Op Res α) :
    relabel f (pre ++ post) = relabel f pre ++ relabel f post := List.map_append

@[simp] theorem relabel_cons (t : (κ × G) × Prog Op Res α) (ts : Threads κ G Op Res α) :
    relabel f (t :: ts) = ((f t.1.1, t.1.2), t.2) :: relabel f ts := rfl

variable [AddCommMonoid G] {track : G → (op : Op) → Res op → G} {cond : σ → G → G → Op → Prop}
  {leave : σ → G → Prop} {code : ι → Prog Op Res α} {exec : σ → (op : Op) → Res op → σ → Prop} {s₀ : σ}

@[simp] theorem total_relabel (ts : Threads κ G Op Res α) : total (relabel f ts) = total ts := by
  unfold total relabel
  rw [List.map_map]
  rfl

variable {f} {p q : Pool σ (κ × G) Op Res α}

theorem Step.relabel (h : Step track cond leave (fun i => code (f i)) exec p q) :
    Step track cond leave code exec ⟨p.shared, relabel f p.threads⟩ ⟨q.shared, relabel f q.threads⟩ := by
  cases h with
  | spawn s ts i => exact .spawn s (Tracked.relabel f ts) (f i)
  | act hcond hexec =>
    simp only [relabel_append, relabel_cons]
    refine .act ?_ hexec
    rw [← relabel_append, total_relabel]
    exact hcond
  | leave hg =>
    simp only [relabel_append, relabel_cons]
    exact .leave hg

/-- **What some of the requests do, the requests can do.** -/
theorem Reachable.relabel (hp : Reachable track cond leave (fun i => code (f i)) exec s₀ p) :
    Reachable track cond leave code exec s₀ ⟨p.shared, Tracked.relabel f p.threads⟩ := by
  induction hp with
  | refl => exact .refl
  | tail _ hlast ih => exact ih.tail hlast.relabel

end Relabel

/-! ## Requests one after the other -/

section InTurn

variable {G : Type} [AddCommMonoid G] {track : G → (op : Op) → Res op → G} {code : ι → Prog Op Res α}
  {exec : σ → (op : Op) → Res op → σ → Prop} {ans : σ → (op : Op) → Res op × σ}

/-- Requests that come one after the other, and how many operations each performs. -/
def inTurn (reqs : List (ι × ℕ)) : List (Turn ι Unit) :=
  reqs.flatMap fun req => .spawn req.1 :: List.replicate req.2 (.act 0 ())

/-- Where everything is allowed, every schedule is. -/
theorem playOk_free {φ : Type} {ans : φ → σ → (op : Op) → Res op × σ} (p : Pool σ (ι × G) Op Res α)
    (turns : List (Turn ι φ)) : playOk track code ans (fun _ _ _ _ _ => true) (fun _ _ => true) p turns = true := by
  induction turns generalizing p with
  | nil => rfl
  | cons t turns ih =>
    unfold playOk
    rw [Bool.and_eq_true]
    refine ⟨?_, ih _⟩
    cases t with
    | spawn i => rfl
    | act n how =>
      simp only [turnOk]
      split <;> rfl
    | leave n =>
      simp only [turnOk]
      split <;> rfl

/-- **Requests one after the other are a run**, if the answers are possible ones. -/
theorem reachable_inTurn (hans : ∀ s op, exec s op (ans s op).1 (ans s op).2) (s₀ : σ) (reqs : List (ι × ℕ)) :
    Reachable track (fun _ _ _ _ => True) (fun _ _ => True) code exec s₀
      (play track code (fun _ => ans) s₀ (inTurn reqs)) :=
  reachable_play (fun _ s _ _ op _ => ⟨trivial, hans s op⟩) (fun _ _ _ => trivial) s₀ _ (playOk_free _ _)

end InTurn

end Tracked
