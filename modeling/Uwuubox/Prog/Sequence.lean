import Uwuubox.Prog.Pool
import Uwuubox.Prog.Protocol

/-!
# One request after another

A server that starts a request only when the one before has returned.

* `Sequence` — the requests answered so far, the last first, and the state they have left.
* `Sequence.invariant` — **the run rule**: what holds at the start and is kept by one request, whatever
  has been answered before, holds of every sequence.
* `Owns.runs`, `Obeys.runs` — what a ledger and a protocol say of a request that runs alone.
* `Runs.exists_log` — a log restricts nothing.
* `answerAll` — an executable server; `sequence_answerAll`: what it does is a sequence.
-/

namespace Prog

variable {σ ι Op : Type} {Res : Op → Type} {α : Type}

/-- The requests that have been answered, the last first, and the state that they have left. -/
inductive Sequence (code : ι → Prog Op Res α) (exec : σ → (op : Op) → Res op → σ → Prop) (s₀ : σ) :
    List (ι × α) → σ → Prop
  | start : Sequence code exec s₀ [] s₀
  /-- One more request runs from its start to its end. -/
  | request {past : List (ι × α)} {s s' : σ} {i : ι} {a : α} : Sequence code exec s₀ past s →
      (code i).Runs exec s a s' → Sequence code exec s₀ ((i, a) :: past) s'

variable {code : ι → Prog Op Res α} {exec : σ → (op : Op) → Res op → σ → Prop} {s₀ : σ}

/-- **The run rule.** -/
theorem Sequence.invariant {Inv : List (ι × α) → σ → Prop} (h₀ : Inv [] s₀)
    (hstep : ∀ past s i a s', Inv past s → (code i).Runs exec s a s' → Inv ((i, a) :: past) s')
    {past : List (ι × α)} {s : σ} (h : Sequence code exec s₀ past s) : Inv past s := by
  induction h with
  | start => exact h₀
  | request _ hrun ih => exact hstep _ _ _ _ _ ih hrun

/-! ## One request -/

section One

variable {G Γ : Type} [AddCommMonoid G] {inv : σ → G → Prop} {fin : α → G → Prop} {p : Prog Op Res α}
  {s s' : σ} {a : α}

/-- A request that owns a share keeps the invariant while it runs. -/
theorem Owns.runs {g f : G} (h : p.Owns inv exec fin g) (hinv : inv s (g + f)) (hrun : p.Runs exec s a s') :
    ∃ g', inv s' (g' + f) ∧ fin a g' := by
  induction p generalizing s g with
  | ret b =>
    obtain ⟨rfl, rfl⟩ := hrun
    exact ⟨g, hinv, h⟩
  | call op k ih =>
    obtain ⟨r, t, hexec, hrun⟩ := hrun
    obtain ⟨g', hinv', hk⟩ := h s r t f hinv hexec
    exact ih r hk hinv' hrun

omit [AddCommMonoid G] in
/-- A request that obeys a protocol ends as the protocol says, where its phases are related to the
states that it goes through. -/
theorem Obeys.runs {π : Protocol Γ Op Res} {fin : α → Γ → Prop} (R : Γ → σ → Prop)
    (hstep : ∀ {γ s op r s'}, R γ s → π.may γ op → exec s op r s' → ∃ γ', π.next γ op r γ' ∧ R γ' s')
    {γ : Γ} (h : p.Obeys π fin γ) (hR : R γ s) (hrun : p.Runs exec s a s') : ∃ γ', R γ' s' ∧ fin a γ' :=
  obeys_ofExec_iff.1 (h.simulate R (fun _ _ => trivial) hstep hR) a s' hrun

/-- A log restricts nothing. -/
theorem Runs.exists_log {L : Type} {record : L → (op : Op) → Res op → L} (h : p.Runs exec s a s') (l : L) :
    ∃ l', p.Runs (logged record exec) (s, l) a (s', l') := by
  induction p generalizing s l with
  | ret b =>
    obtain ⟨rfl, rfl⟩ := h
    exact ⟨l, rfl, rfl⟩
  | call op k ih =>
    obtain ⟨r, t, hexec, hrun⟩ := h
    obtain ⟨l', hl'⟩ := ih r hrun (record l op r)
    exact ⟨l', r, (t, record l op r), ⟨hexec, rfl⟩, hl'⟩

end One

/-! ## An executable server -/

section Answer

variable (code) (ans : σ → (op : Op) → Res op × σ)

/-- Answer one more request. -/
def answerNext (run : List (ι × α) × σ) (i : ι) : List (ι × α) × σ :=
  ((i, ((code i).eval ans run.2).1) :: run.1, ((code i).eval ans run.2).2)

/-- Answer the requests, the first first. -/
def answerAll (s : σ) (requests : List ι) : List (ι × α) × σ := requests.foldl (answerNext code ans) ([], s)

variable {code ans}

theorem sequence_answerAll (hans : ∀ s op, exec s op (ans s op).1 (ans s op).2) (requests : List ι) :
    Sequence code exec s₀ (answerAll code ans s₀ requests).1 (answerAll code ans s₀ requests).2 := by
  have hfold : ∀ (requests : List ι) (run : List (ι × α) × σ), Sequence code exec s₀ run.1 run.2 →
      Sequence code exec s₀ (requests.foldl (answerNext code ans) run).1
        (requests.foldl (answerNext code ans) run).2 := by
    intro requests
    induction requests with
    | nil => exact fun run h => h
    | cons i requests ih => exact fun run h => ih _ (.request h (runs_eval hans (code i) run.2))
  exact hfold requests ([], s₀) .start

end Answer

end Prog
