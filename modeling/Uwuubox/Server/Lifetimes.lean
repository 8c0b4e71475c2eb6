import Uwuubox.Server.Requests

/-!
# The times at which items expire

An upload or a paste expires at `Utc::now() + TimeDelta::seconds(secs)`.  Both steps panic when there is no such value:
a duration has its milliseconds in an `i64`, and there is a first and a last date.

* `TimeRange` — the instants that there are; `TimeRange.later` is the sum.
* `TimeRange.Has` — there is a time so many seconds from now.
* `Representable` — what a request asks for, within the limits, is such a time.
* `lifetimes_iff` — **a request panics exactly if it is not**; and none does exactly if the shortest and the longest
  lifetime are.
* `unrepresentable` — settings that pass their validation, and panic.
-/

namespace Uwuubox
namespace Server

open Dedupe Storage Table Fallible

/-! ## Times -/

/-- The instants from the first to the last, in nanoseconds. -/
structure TimeRange where
  first : ℤ
  last : ℤ

/-- `TimeDelta::seconds`, in nanoseconds; `none` is a panic. -/
def timeDeltaSeconds (secs : ℤ) : Option ℤ := if |secs| ≤ (2 ^ 63 - 1) / 1000 then some (secs * 10 ^ 9) else none

namespace TimeRange

variable {range : TimeRange} {now secs : ℤ}

/-- `DateTime + TimeDelta`; `none` is a panic. -/
def add (range : TimeRange) (now delta : ℤ) : Option ℤ :=
  if range.first ≤ now + delta ∧ now + delta ≤ range.last then some (now + delta) else none

/-- `Utc::now() + TimeDelta::seconds(secs)`. -/
def later (range : TimeRange) (now secs : ℤ) : Option ℤ := (timeDeltaSeconds secs).bind (range.add now)

/-- There is such a duration, and a time that far from now. -/
def Has (range : TimeRange) (now secs : ℤ) : Prop :=
  |secs| ≤ (2 ^ 63 - 1) / 1000 ∧ range.first ≤ now + secs * 10 ^ 9 ∧ now + secs * 10 ^ 9 ≤ range.last

theorem later_eq_none : range.later now secs = none ↔ ¬ range.Has now secs := by
  unfold later timeDeltaSeconds Has
  by_cases hdelta : |secs| ≤ (2 ^ 63 - 1) / 1000
  · rw [if_pos hdelta, Option.bind_some, and_iff_right hdelta, add]
    exact ite_eq_right_iff.trans (imp_congr_right fun _ => iff_of_false nofun (fun h => h))
  · rw [if_neg hdelta]
    exact iff_of_true rfl fun h => hdelta h.1

/-- What lies between two such times is one. -/
theorem Has.between {low high : ℤ} (hlow : range.Has now low) (hhigh : range.Has now high) (h₁ : low ≤ secs)
    (h₂ : secs ≤ high) : range.Has now secs := by
  obtain ⟨hlow, hfirst, -⟩ := hlow
  obtain ⟨hhigh, -, hlast⟩ := hhigh
  rw [abs_le] at hlow hhigh
  exact ⟨abs_le.2 ⟨by omega, by omega⟩, by omega, by omega⟩

end TimeRange

/-! ## Requests -/

/-- What is asked for is such a time, or what takes its place beyond the limits. -/
def Representable (range : TimeRange) (now : ℤ) (limits : EffectiveLimits) : ExpiryRequest → Prop
  | .default => range.Has now limits.defaultExpirySecs
  | .never => True
  | .inSecs secs =>
    if secs < limits.minExpirySecs then range.Has now limits.minExpirySecs
    else if limits.maxExpirySecs < secs then range.Has now limits.maxExpirySecs
    else range.Has now secs

variable {env : Env} {range : TimeRange} {limits : EffectiveLimits} {requested : ExpiryRequest} {allowNever : Bool}

/-- A lifetime panics exactly if there is no such time. -/
theorem newExpiry_of_clamp (hlater : env.later = range.later) {lifetime : Option ℤ}
    (hclamp : limits.clamp requested allowNever = some (.ok lifetime)) (w : World) :
    ((newExpiry env limits requested allowNever).run.eval answer w).1 = .error .panic ↔
      ∃ secs, lifetime = some secs ∧ ¬ range.Has w.now secs := by
  unfold newExpiry Server.lifetime
  rw [hclamp]
  cases lifetime with
  | none => exact iff_of_false nofun nofun
  | some secs =>
    show ((do
      let at' ← orThrow (env.later w.now secs) .panic
      pure (some at') : Handler (Option ℤ)).run.eval answer w).1 = .error .panic ↔ _
    simp only [Option.some.injEq, exists_eq_left']
    rw [← TimeRange.later_eq_none, hlater]
    cases range.later w.now secs with
    | none => exact iff_of_true rfl rfl
    | some at' => exact iff_of_false nofun nofun

/-- The lifetime of a request that is accepted. -/
theorem representable_iff {lifetime : Option ℤ} (hclamp : limits.clamp requested allowNever = some (.ok lifetime))
    (now : ℤ) : Representable range now limits requested ↔ ∀ secs, lifetime = some secs → range.Has now secs := by
  cases requested with
  | default =>
    cases hclamp
    simp [Representable]
  | never =>
    cases allowNever with
    | false => cases hclamp
    | true =>
      cases hclamp
      simp [Representable]
  | inSecs secs =>
    simp only [EffectiveLimits.clamp, clampExpiry, clamp] at hclamp
    split at hclamp
    · rename_i clamped hclamped
      cases hclamp
      split at hclamped
      · cases hclamped
        simp only [Option.some.injEq, forall_eq', Representable]
        split
        · rw [max_eq_left (by omega)]
        · split
          · rw [min_eq_right (by omega), max_eq_right (by omega)]
          · rw [min_eq_left (by omega), max_eq_right (by omega)]
      · cases hclamped
    · cases hclamp

/-- **When the time at which an item expires exists.**  For merged limits that are in order, an accepted request panics
exactly if what it asks for is not representable; and no accepted request panics exactly if the shortest and the longest
lifetime are such times. -/
theorem lifetimes_iff (hlater : env.later = range.later) {cfg : InstanceConfig} {role : Option Role} {quota : Option ℤ}
    (hordered : (EffectiveLimits.merge cfg role quota).Ordered) (authed : Bool) (w : World) :
    (∀ requested lifetime,
      (EffectiveLimits.merge cfg role quota).clamp requested (cfg.allowNever authed) = some (.ok lifetime) →
      (((newExpiry env (EffectiveLimits.merge cfg role quota) requested (cfg.allowNever authed)).run.eval answer w).1 ≠
        .error .panic ↔ Representable range w.now (EffectiveLimits.merge cfg role quota) requested)) ∧
    ((∀ requested lifetime,
      (EffectiveLimits.merge cfg role quota).clamp requested (cfg.allowNever authed) = some (.ok lifetime) →
      ((newExpiry env (EffectiveLimits.merge cfg role quota) requested (cfg.allowNever authed)).run.eval answer w).1 ≠
        .error .panic) ↔
      range.Has w.now (EffectiveLimits.merge cfg role quota).minExpirySecs ∧
        range.Has w.now (EffectiveLimits.merge cfg role quota).maxExpirySecs) := by
  generalize EffectiveLimits.merge cfg role quota = limits at *
  have hone : ∀ requested lifetime, limits.clamp requested (cfg.allowNever authed) = some (.ok lifetime) →
      (((newExpiry env limits requested (cfg.allowNever authed)).run.eval answer w).1 ≠ .error .panic ↔
        Representable range w.now limits requested) := by
    intro requested lifetime hclamp
    rw [Ne, newExpiry_of_clamp hlater hclamp, representable_iff hclamp]
    simp
  obtain ⟨hmin, hmax⟩ := hordered
  have hinSecs : ∀ secs, ∃ lifetime, limits.clamp (.inSecs secs) (cfg.allowNever authed) = some (.ok lifetime) := by
    intro secs
    obtain ⟨clamped, hclamped, -⟩ := clamp_mem (x := secs) (hmin.trans hmax)
    exact ⟨some clamped, by simp only [EffectiveLimits.clamp, clampExpiry, hclamped]⟩
  refine ⟨hone, fun hall => ?_, ?_⟩
  · have hall : ∀ secs, Representable range w.now limits (.inSecs secs) := by
      intro secs
      obtain ⟨lifetime, hclamp⟩ := hinSecs secs
      exact (hone _ lifetime hclamp).1 (hall _ lifetime hclamp)
    have hlow := hall limits.minExpirySecs
    have hhigh := hall limits.maxExpirySecs
    simp only [Representable, lt_irrefl, if_false] at hlow hhigh
    rw [if_neg (by omega)] at hlow hhigh
    exact ⟨hlow, hhigh⟩
  · rintro ⟨hlow, hhigh⟩ requested lifetime hclamp
    rw [hone requested lifetime hclamp]
    cases requested with
    | default => exact hlow.between hhigh hmin hmax
    | never => trivial
    | inSecs secs =>
      simp only [Representable]
      split
      · exact hlow
      · split
        · exact hhigh
        · exact hlow.between hhigh (by omega) (by omega)

/-! ### Limits without a bound -/

/-- `DateTime<Utc>`: from the first day of the year -262143 to the last one of 262142. -/
def chronoRange : TimeRange := ⟨-8334601228800 * 10 ^ 9, 8210266876800 * 10 ^ 9 - 1⟩

def chronoEnv : Env := { Env.plain with later := chronoRange.later }

/-- An instance with a greatest lifetime of its own. -/
def maxConfig (secs : ℤ) : InstanceConfig := { InstanceConfig.default with maxExpirySecs := secs }

theorem lifetimes_iff_day : ((newExpiry chronoEnv (.merge .default none none) (.inSecs 86400)
    (InstanceConfig.default.allowNever true)).run.eval answer World.empty).1 ≠ .error .panic := by
  have hordered : (EffectiveLimits.merge .default none none).Ordered := ⟨by decide, by decide⟩
  have hiff := @lifetimes_iff chronoEnv chronoRange rfl .default none none hordered true World.empty
  exact (hiff.1 (.inSecs 86400) (some 86400) rfl).2 ⟨by decide, by decide, by decide⟩

/-- **Settings that pass their validation, and panic**: a longest lifetime for which there is no duration, and one of
ten trillion seconds, which is beyond the last date. -/
theorem unrepresentable :
    ((maxConfig (2 ^ 63 - 1)).validate = .ok () ∧
      ((newExpiry chronoEnv (.merge (maxConfig (2 ^ 63 - 1)) none none) (.inSecs (2 ^ 63 - 1)) true).run.eval answer
        World.empty).1 = .error .panic) ∧
    (maxConfig (10 ^ 13)).validate = .ok () ∧
      ((newExpiry chronoEnv (.merge (maxConfig (10 ^ 13)) none none) (.inSecs (10 ^ 13)) true).run.eval answer
        World.empty).1 = .error .panic := by
  refine ⟨⟨rfl, ?_⟩, rfl, ?_⟩
  · refine (@newExpiry_of_clamp chronoEnv chronoRange _ _ _ rfl (some (2 ^ 63 - 1)) rfl World.empty).2 ⟨_, rfl, ?_⟩
    rintro ⟨hdelta, -⟩
    exact absurd hdelta (by decide)
  · refine (@newExpiry_of_clamp chronoEnv chronoRange _ _ _ rfl (some (10 ^ 13)) rfl World.empty).2 ⟨_, rfl, ?_⟩
    rintro ⟨-, -, hlast⟩
    exact absurd hlast (by decide)

end Server
end Uwuubox
