import Mathlib

/-!
# The throttle of anonymous uploads

`AnonLimiter` of `src/ratelimit.rs` keeps the instants of the calls it has allowed, a list for each address, and
forgets those that are older than its window whenever the address calls again.

* `AnonLimiter.check` — one call, under the lock.
* `AnonLimiter.run` — a history of calls, with its answers; `allowed` — the instants at which an address was allowed.
* `hits_of_run` — **the list of an address** has in it all that was allowed within the window.
* `answer_eq` — so a call is answered by a count of what was allowed.
* `sliding_window` — **the limit**: no window has more than `max` allowed calls, a refused call follows `max` allowed
  ones, and nothing else has an influence.
-/

namespace Uwuubox
namespace RateLimit

variable {Addr : Type} [DecidableEq Addr]

/-! ## The limiter -/

/-- `AnonLimiter`.  An address without an entry has none in its list; instants are nanoseconds. -/
structure AnonLimiter (Addr : Type) where
  inner : Addr → List ℤ
  max : ℕ
  window : ℕ

/-- A call of `check`: who calls, and what the clock shows. -/
structure Call (Addr : Type) where
  ip : Addr
  now : ℤ
deriving DecidableEq

/-- The instant is less than a window ago; `duration_since` is zero for an instant that is yet to come. -/
def recent (window : ℕ) (now t : ℤ) : Bool := (now - t).toNat < window

namespace AnonLimiter

/-- `AnonLimiter::new`. -/
def new (max window : ℕ) : AnonLimiter Addr := ⟨fun _ => [], max, window⟩

/-- `AnonLimiter::check`: whether the call is allowed, and the limiter after it. -/
def check (l : AnonLimiter Addr) (c : Call Addr) : Bool × AnonLimiter Addr :=
  let hits := (l.inner c.ip).filter (recent l.window c.now)
  if hits.length ≥ l.max then (false, { l with inner := Function.update l.inner c.ip hits })
  else (true, { l with inner := Function.update l.inner c.ip (hits ++ [c.now]) })

/-- A history of calls: the limiter after it, and the calls with their answers. -/
def run (l : AnonLimiter Addr) (calls : List (Call Addr)) : AnonLimiter Addr × List (Call Addr × Bool) :=
  calls.foldl (fun s c => ((s.1.check c).2, s.2 ++ [(c, (s.1.check c).1)])) (l, [])

/-- The answer to a call that comes after others. -/
def answer (l : AnonLimiter Addr) (before : List (Call Addr)) (c : Call Addr) : Bool := ((l.run before).1.check c).1

/-- When the address was allowed. -/
def allowed (l : AnonLimiter Addr) (ip : Addr) (calls : List (Call Addr)) : List ℤ :=
  ((l.run calls).2.filter fun d => d.2 && d.1.ip = ip).map fun d => d.1.now

/-! ## Histories -/

variable {l : AnonLimiter Addr} {calls : List (Call Addr)} {c : Call Addr} {ip : Addr} {max window : ℕ}

theorem run_snoc (l : AnonLimiter Addr) (calls : List (Call Addr)) (c : Call Addr) :
    l.run (calls ++ [c]) =
      (((l.run calls).1.check c).2, (l.run calls).2 ++ [(c, ((l.run calls).1.check c).1)]) := by
  simp [run, List.foldl_append]

theorem allowed_snoc (l : AnonLimiter Addr) (ip : Addr) (calls : List (Call Addr)) (c : Call Addr) :
    l.allowed ip (calls ++ [c]) =
      l.allowed ip calls ++ if l.answer calls c && c.ip = ip then [c.now] else [] := by
  unfold allowed
  rw [run_snoc, List.filter_append, List.map_append]
  congr 1
  cases h : ((l.run calls).1.check c).1 <;> by_cases hip : c.ip = ip <;> simp [answer, h, hip]

theorem check_fst (l : AnonLimiter Addr) (c : Call Addr) :
    (l.check c).1 = decide (((l.inner c.ip).filter (recent l.window c.now)).length < l.max) := by
  simp only [check]
  split
  · rename_i hfull
    simpa using hfull
  · rename_i hfull
    simpa using hfull

@[simp] theorem check_max (l : AnonLimiter Addr) (c : Call Addr) : (l.check c).2.max = l.max := by
  simp only [check]
  split <;> rfl

@[simp] theorem check_window (l : AnonLimiter Addr) (c : Call Addr) : (l.check c).2.window = l.window := by
  simp only [check]
  split <;> rfl

theorem run_settings (l : AnonLimiter Addr) (calls : List (Call Addr)) :
    (l.run calls).1.max = l.max ∧ (l.run calls).1.window = l.window := by
  induction calls using List.reverseRecOn with
  | nil => exact ⟨rfl, rfl⟩
  | append_singleton calls c ih => simpa [run_snoc] using ih

/-- What was allowed was allowed at the instant of some call. -/
theorem mem_allowed {t : ℤ} (h : t ∈ l.allowed ip calls) : ∃ c ∈ calls, c.now = t := by
  induction calls using List.reverseRecOn with
  | nil => simp [allowed, run] at h
  | append_singleton calls c ih =>
    rw [allowed_snoc, List.mem_append] at h
    rcases h with h | h
    · obtain ⟨d, hd, rfl⟩ := ih h
      exact ⟨d, List.mem_append_left _ hd, rfl⟩
    · split at h
      · obtain rfl := List.mem_singleton.1 h
        exact ⟨c, List.mem_append_right _ (List.mem_singleton_self c), rfl⟩
      · cases h

end AnonLimiter

/-! ## The clock -/

/-- The clock never goes back. -/
def Ordered (calls : List (Call Addr)) : Prop := calls.Pairwise fun c d => c.now ≤ d.now

section

variable {calls : List (Call Addr)} {c : Call Addr} {ip : Addr} {max window : ℕ}

omit [DecidableEq Addr] in
theorem ordered_snoc : Ordered (calls ++ [c]) ↔ Ordered calls ∧ ∀ d ∈ calls, d.now ≤ c.now := by
  simp [Ordered, List.pairwise_append]

/-- What is not recent any more will never be. -/
theorem recent_mono {now later t : ℤ} (hlater : now ≤ later) (h : recent window later t = true) :
    recent window now t = true := by
  unfold recent at *
  simp only [decide_eq_true_eq] at *
  omega

/-- To forget what is not recent does not change what is recent later. -/
theorem filter_recent_filter {now later : ℤ} (hlater : now ≤ later) (hits : List ℤ) :
    (hits.filter (recent window now)).filter (recent window later) = hits.filter (recent window later) := by
  rw [List.filter_filter]
  refine List.filter_congr fun t _ => ?_
  cases h : recent window later t with
  | false => simp
  | true => simp [recent_mono hlater h]

namespace AnonLimiter

/-- **The list of an address** has in it all that was allowed within the window. -/
theorem hits_of_run {now : ℤ} (hcalls : Ordered calls) (hnow : ∀ d ∈ calls, d.now ≤ now) :
    (((new max window : AnonLimiter Addr).run calls).1.inner ip).filter (recent window now) =
      ((new max window : AnonLimiter Addr).allowed ip calls).filter (recent window now) := by
  induction calls using List.reverseRecOn generalizing now with
  | nil => rfl
  | append_singleton calls c ih =>
    obtain ⟨hcalls, hlast⟩ := ordered_snoc.1 hcalls
    have hc : c.now ≤ now := hnow c (List.mem_append_right _ (List.mem_singleton_self c))
    have hbefore := fun {t : ℤ} (ht : c.now ≤ t) => ih hcalls fun d hd => (hlast d hd).trans ht
    have hwindow : ((new max window : AnonLimiter Addr).run calls).1.window = window := (run_settings _ _).2
    rw [allowed_snoc, run_snoc, List.filter_append]
    unfold answer check
    simp only [hwindow]
    by_cases hip : ip = c.ip
    · subst hip
      split
      · simp [filter_recent_filter hc, hbefore hc]
      · simp [filter_recent_filter hc, hbefore hc, List.filter_append]
    · have hne : ¬ c.ip = ip := fun heq => hip heq.symm
      split <;> simp [Function.update_of_ne hip, hne, hbefore hc]

/-- **A call is answered** by a count of what was allowed within the window before it. -/
theorem answer_eq (hcalls : Ordered (calls ++ [c])) : (new max window : AnonLimiter Addr).answer calls c =
    decide ((((new max window : AnonLimiter Addr).allowed c.ip calls).filter (recent window c.now)).length < max) := by
  obtain ⟨hcalls, hlast⟩ := ordered_snoc.1 hcalls
  obtain ⟨hmax, hwindow⟩ := run_settings (new max window : AnonLimiter Addr) calls
  rw [← hits_of_run hcalls hlast, answer, check_fst, hmax, hwindow]
  rfl

/-! ## The limit -/

/-- One more than a window has room for is never allowed: the step of `window_count`. -/
theorem allowed_count_snoc {start : ℤ} (hcalls : Ordered (calls ++ [c]))
    (hcount : ((new max window : AnonLimiter Addr).allowed ip calls).countP
      (fun t => start ≤ t ∧ t < start + window) ≤ max) :
    ((new max window : AnonLimiter Addr).allowed ip (calls ++ [c])).countP
      (fun t => start ≤ t ∧ t < start + window) ≤ max := by
  rw [allowed_snoc, List.countP_append]
  split
  · rename_i hyes
    simp only [Bool.and_eq_true, decide_eq_true_eq] at hyes
    obtain ⟨hanswer, rfl⟩ := hyes
    by_cases hin : start ≤ c.now ∧ c.now < start + window
    · rw [answer_eq hcalls, decide_eq_true_eq, ← List.countP_eq_length_filter] at hanswer
      -- What is in this window before the call is in the window that ends with the call.
      have hle : ((new max window : AnonLimiter Addr).allowed c.ip calls).countP
          (fun t => start ≤ t ∧ t < start + window) ≤
          ((new max window : AnonLimiter Addr).allowed c.ip calls).countP (recent window c.now) := by
        refine List.countP_mono_left fun t _ hp => ?_
        simp only [decide_eq_true_eq] at hp
        simp only [recent, decide_eq_true_eq]
        omega
      have hone : [c.now].countP (fun t => decide (start ≤ t ∧ t < start + window)) ≤ 1 := List.countP_le_length
      omega
    · simpa [hin] using hcount
  · simpa using hcount

/-- What was allowed fits the window, wherever it begins. -/
theorem window_count (hcalls : Ordered calls) (ip : Addr) (start : ℤ) :
    ((new max window : AnonLimiter Addr).allowed ip calls).countP (fun t => start ≤ t ∧ t < start + window) ≤ max := by
  induction calls using List.reverseRecOn with
  | nil => simp [allowed, run]
  | append_singleton calls c ih => exact allowed_count_snoc hcalls (ih (ordered_snoc.1 hcalls).1)

/-- A call is refused when there were `max` allowed ones in the window that ends with it, and only then. -/
theorem refused_iff (hcalls : Ordered (calls ++ [c])) :
    (new max window : AnonLimiter Addr).answer calls c = false ↔
      max ≤ ((new max window : AnonLimiter Addr).allowed c.ip calls).countP
        fun t => c.now - window < t ∧ t ≤ c.now := by
  rw [answer_eq hcalls, decide_eq_false_iff_not, not_lt, ← List.countP_eq_length_filter]
  refine iff_of_eq (congrArg (max ≤ ·) (List.countP_congr fun t ht => ?_))
  obtain ⟨d, hd, rfl⟩ := mem_allowed ht
  have hle : d.now ≤ c.now := (ordered_snoc.1 hcalls).2 d hd
  simp only [recent, decide_eq_true_eq]
  omega

/-! ## What has no influence -/

/-- A history without some of the calls of other addresses, and without some of the refused ones. -/
inductive LeavesOut (l : AnonLimiter Addr) (ip : Addr) : List (Call Addr) → List (Call Addr) → Prop
  | nil : LeavesOut l ip [] []
  | keep {calls rest : List (Call Addr)} (c : Call Addr) :
      LeavesOut l ip calls rest → LeavesOut l ip (calls ++ [c]) (rest ++ [c])
  | drop {calls rest : List (Call Addr)} (c : Call Addr) (hc : c.ip ≠ ip ∨ l.answer calls c = false) :
      LeavesOut l ip calls rest → LeavesOut l ip (calls ++ [c]) rest

theorem LeavesOut.sublist {rest : List (Call Addr)} {l : AnonLimiter Addr} (h : LeavesOut l ip calls rest) :
    rest.Sublist calls := by
  induction h with
  | nil => exact List.Sublist.slnil
  | keep c _ ih => exact ih.append (List.Sublist.refl [c])
  | drop c _ _ ih => exact ih.trans (List.sublist_append_left _ _)

/-- Without them, the same was allowed. -/
theorem LeavesOut.allowed_eq {rest : List (Call Addr)} (h : LeavesOut (new max window) ip calls rest)
    (hcalls : Ordered calls) :
    (new max window : AnonLimiter Addr).allowed ip rest = (new max window : AnonLimiter Addr).allowed ip calls := by
  induction h with
  | nil => rfl
  | @keep calls rest c hrest ih =>
    have hbefore := ih (ordered_snoc.1 hcalls).1
    have hordered : Ordered (rest ++ [c]) :=
      List.Pairwise.sublist (hrest.sublist.append (List.Sublist.refl [c])) hcalls
    rw [allowed_snoc, allowed_snoc, hbefore]
    by_cases hip : c.ip = ip
    · subst hip
      rw [answer_eq hordered, answer_eq hcalls, hbefore]
    · simp [hip]
  | drop c hc _ ih =>
    rw [allowed_snoc, ih (ordered_snoc.1 hcalls).1]
    rcases hc with hip | hanswer
    · simp [hip]
    · simp [hanswer]

/-- **The sliding window.**  Of the calls that were made while the clock did not go back, no window has more than
`max` allowed ones of an address; a call is refused only after `max` allowed ones of its own address within the window
that ends with it; and its answer is the same without calls of other addresses and without refused ones. -/
theorem sliding_window (max window : ℕ) {calls : List (Call Addr)} (hcalls : Ordered calls) :
    (∀ (ip : Addr) (start : ℤ), ((new max window : AnonLimiter Addr).allowed ip calls).countP
      (fun t => start ≤ t ∧ t < start + window) ≤ max) ∧
    (∀ before c after, calls = before ++ c :: after →
      (new max window : AnonLimiter Addr).answer before c = false →
      max ≤ ((new max window : AnonLimiter Addr).allowed c.ip before).countP
        fun t => c.now - window < t ∧ t ≤ c.now) ∧
    ∀ before c after rest, calls = before ++ c :: after → LeavesOut (new max window) c.ip before rest →
      (new max window : AnonLimiter Addr).answer rest c = (new max window : AnonLimiter Addr).answer before c := by
  have hfirst : ∀ {before c after}, calls = before ++ c :: after → Ordered (before ++ [c]) := by
    rintro before c after rfl
    refine List.Pairwise.sublist ?_ hcalls
    exact (List.Sublist.refl before).append (List.singleton_sublist.2 List.mem_cons_self)
  refine ⟨window_count hcalls, fun before c after heq hrefused => (refused_iff (hfirst heq)).1 hrefused, ?_⟩
  intro before c after rest heq hrest
  have hbefore : Ordered (before ++ [c]) := hfirst heq
  have hordered : Ordered (rest ++ [c]) :=
    List.Pairwise.sublist (hrest.sublist.append (List.Sublist.refl [c])) hbefore
  rw [answer_eq hordered, answer_eq hbefore, hrest.allowed_eq (ordered_snoc.1 hbefore).1]

/-- Two addresses, at most two calls in five instants: the first address is refused once, and allowed again. -/
def twoAddresses : List (Call ℕ) := [⟨1, 0⟩, ⟨2, 1⟩, ⟨1, 2⟩, ⟨1, 4⟩, ⟨1, 5⟩]

theorem sliding_window_twoAddresses :
    (∀ (ip : ℕ) (start : ℤ), ((new 2 5).allowed ip twoAddresses).countP
      (fun t => start ≤ t ∧ t < start + (5 : ℕ)) ≤ 2) ∧
    (new 2 5).answer [⟨1, 0⟩, ⟨2, 1⟩, ⟨1, 2⟩] (⟨1, 4⟩ : Call ℕ) = false ∧
    2 ≤ ((new 2 5).allowed 1 [⟨1, 0⟩, ⟨2, 1⟩, ⟨1, 2⟩]).countP (fun t : ℤ => 4 - (5 : ℕ) < t ∧ t ≤ 4) ∧
    (new 2 5).answer [⟨1, 0⟩, ⟨1, 2⟩] (⟨1, 5⟩ : Call ℕ) = true := by
  have hrule := @sliding_window ℕ _ 2 5 twoAddresses (by simp [Ordered, twoAddresses])
  have hfirst : LeavesOut (new 2 5) (1 : ℕ) [⟨1, 0⟩, ⟨2, 1⟩, ⟨1, 2⟩, ⟨1, 4⟩] [⟨1, 0⟩, ⟨1, 2⟩] :=
    ((LeavesOut.nil.keep ⟨1, 0⟩ |>.drop ⟨2, 1⟩ (.inl (by decide))).keep ⟨1, 2⟩).drop ⟨1, 4⟩ (.inr (by decide))
  exact ⟨hrule.1, by decide, hrule.2.1 [⟨1, 0⟩, ⟨2, 1⟩, ⟨1, 2⟩] ⟨1, 4⟩ [⟨1, 5⟩] rfl (by decide),
    (hrule.2.2 [⟨1, 0⟩, ⟨2, 1⟩, ⟨1, 2⟩, ⟨1, 4⟩] ⟨1, 5⟩ [] _ rfl hfirst).trans (by decide)⟩

end AnonLimiter

end

end RateLimit
end Uwuubox
