import Uwuubox.Server.Limits

/-!
# The limit on request bodies

`InstanceConfig::body_limit`: the largest file and 2 MiB for the framing of a form, in 64 bits.  The layer in front of
all handlers refuses what is longer; the limits of a role apply only behind it.

* `InstanceConfig.bodyLimit` — in wrapping arithmetic, and at least 1.
* `bodyLimit_of_fits`, `bodyLimit_of_wraps` — what it is on either side of the greatest sum.
* `bodyLimit_iff` — **the limit leaves room for the largest file** exactly if the sum fits.
* `backstop_iff` — **the limit is no lower than those of a user** exactly if these are within the largest file of the
  instance, and uploads within them are never refused exactly if those for files are.
-/

namespace Uwuubox
namespace Server

open Dedupe

/-! ## The limit -/

/-- `i64` arithmetic, where overflow is not checked. -/
def wrap64 (n : ℤ) : ℤ := n.bmod (2 ^ 64)

/-- The room for the framing of a form. -/
def headroom : ℤ := 2 * 1024 * 1024

/-- `InstanceConfig::body_limit` -/
def InstanceConfig.bodyLimit (cfg : InstanceConfig) : ℕ := (max (wrap64 (cfg.maxFileBytes + headroom)) 1).toNat

variable {cfg : InstanceConfig}

/-- The numbers of a valid configuration are positive. -/
theorem InstanceConfig.positive_of_validate (h : cfg.validate = .ok ()) : ∀ kv ∈ cfg.positives, 0 < kv.2 := by
  simp only [validate] at h
  intro kv hkv
  cases hfind : cfg.positives.find? fun kv => kv.2 ≤ 0 with
  | none => simpa using List.find?_eq_none.1 hfind kv hkv
  | some bad =>
    rw [hfind] at h
    repeat' split at h
    all_goals contradiction

theorem InstanceConfig.maxFileBytes_pos (h : cfg.validate = .ok ()) : 0 < cfg.maxFileBytes :=
  positive_of_validate h ("max_file_bytes", cfg.maxFileBytes) List.mem_cons_self

/-- A sum that fits is the limit. -/
theorem bodyLimit_of_fits (hpos : 0 < cfg.maxFileBytes) (hfits : cfg.maxFileBytes ≤ 2 ^ 63 - 1 - headroom) :
    (cfg.bodyLimit : ℤ) = cfg.maxFileBytes + headroom := by
  have hwrap : wrap64 (cfg.maxFileBytes + headroom) = cfg.maxFileBytes + headroom := by
    unfold wrap64 headroom at *
    exact Int.bmod_eq_of_le (by omega) (by omega)
  unfold InstanceConfig.bodyLimit
  rw [hwrap, max_eq_left (by unfold headroom; omega), Int.toNat_of_nonneg (by unfold headroom; omega)]

/-- A sum that wraps is negative, and the limit is a byte. -/
theorem bodyLimit_of_wraps (hi64 : cfg.maxFileBytes ≤ 2 ^ 63 - 1) (hwraps : 2 ^ 63 - 1 - headroom < cfg.maxFileBytes) :
    cfg.bodyLimit = 1 := by
  have hwrap : wrap64 (cfg.maxFileBytes + headroom) ≤ 1 := by
    unfold wrap64 headroom at *
    generalize hsum : cfg.maxFileBytes + 2 * 1024 * 1024 = sum
    have hmod : sum % ((2 ^ 64 : ℕ) : ℤ) = sum := Int.emod_eq_of_lt (by omega) (by push_cast; omega)
    simp only [Int.bmod, hmod]
    split
    · omega
    · push_cast
      omega
  unfold InstanceConfig.bodyLimit
  rw [max_eq_right hwrap]
  rfl

/-- **The limit leaves room for the largest file** exactly if the sum fits 64 bits; otherwise it is a byte. -/
theorem bodyLimit_iff (hcfg : cfg.validate = .ok ()) (hi64 : cfg.maxFileBytes ≤ 2 ^ 63 - 1) :
    ((cfg.bodyLimit : ℤ) = cfg.maxFileBytes + headroom ↔ cfg.maxFileBytes ≤ 2 ^ 63 - 1 - headroom) ∧
    (cfg.maxFileBytes ≤ cfg.bodyLimit ↔ cfg.maxFileBytes ≤ 2 ^ 63 - 1 - headroom) ∧
    (2 ^ 63 - 1 - headroom < cfg.maxFileBytes → cfg.bodyLimit = 1) := by
  have hpos := InstanceConfig.maxFileBytes_pos hcfg
  have hroom : headroom = 2097152 := rfl
  rcases le_or_gt cfg.maxFileBytes (2 ^ 63 - 1 - headroom) with hfits | hwraps
  · have hlimit := bodyLimit_of_fits hpos hfits
    exact ⟨iff_of_true hlimit hfits, iff_of_true (by omega) hfits, fun h => absurd hfits (not_le.2 h)⟩
  · have hlimit := bodyLimit_of_wraps hi64 hwraps
    refine ⟨iff_of_false ?_ (not_le.2 hwraps), iff_of_false ?_ (not_le.2 hwraps), fun _ => hlimit⟩
    · rw [hlimit]
      omega
    · rw [hlimit]
      omega

theorem bodyLimit_iff_default :
    (InstanceConfig.default.bodyLimit : ℤ) = InstanceConfig.default.maxFileBytes + headroom :=
  (bodyLimit_iff InstanceConfig.validate_default (by decide)).1.2 (by decide)

/-- The greatest size of a file that a number can say. -/
def largestConfig : InstanceConfig := { InstanceConfig.default with maxFileBytes := 2 ^ 63 - 1 }

/-- **A valid configuration that admits nothing**: the limit on every request is one byte. -/
theorem bodyLimit_wraps : largestConfig.validate = .ok () ∧ largestConfig.bodyLimit = 1 ∧
    ¬ (largestConfig.bodyLimit : ℤ) = largestConfig.maxFileBytes + headroom := by
  have hlimit := @bodyLimit_of_wraps largestConfig (by decide) (by decide)
  exact ⟨rfl, hlimit, by rw [hlimit]; decide⟩

/-! ## The layer -/

/-- `RequestBodyLimit`: a request is refused when its body is longer than the limit. -/
def bodyRefused (limit : ℕ) (length : ℤ) : Prop := (limit : ℤ) < length

/-- An upload with framing that the headroom has room for is never refused within the user's limit. -/
def Admits (limit : ℕ) (maxFileBytes : ℤ) : Prop :=
  ∀ size framing, 0 ≤ size → size ≤ maxFileBytes → 0 ≤ framing → framing ≤ headroom →
    ¬ bodyRefused limit (size + framing)

/-- What a role says of files is within the largest file of the instance. -/
def FilesWithin (cfg : InstanceConfig) (role : Option Role) : Prop :=
  ∀ r ∈ role, ∀ bytes ∈ r.maxFileBytes, bytes ≤ cfg.maxFileBytes

/-- So are its files, and what holds for pastes is within the limit that comes of it. -/
def RoleWithin (cfg : InstanceConfig) (role : Option Role) : Prop :=
  FilesWithin cfg role ∧
    match role.bind fun r => r.maxPasteBytes with
    | some bytes => bytes ≤ cfg.maxFileBytes + headroom
    | none => cfg.maxPasteBytes ≤ cfg.maxFileBytes + headroom

theorem filesWithin_iff (role : Option Role) (quota : Option ℤ) :
    FilesWithin cfg role ↔ (EffectiveLimits.merge cfg role quota).maxFileBytes ≤ cfg.maxFileBytes := by
  unfold FilesWithin EffectiveLimits.merge
  cases role with
  | none => simp
  | some r => cases hfile : r.maxFileBytes <;> simp [hfile]

theorem roleWithin_iff (role : Option Role) (quota : Option ℤ) : RoleWithin cfg role ↔
    (EffectiveLimits.merge cfg role quota).maxFileBytes ≤ cfg.maxFileBytes ∧
      (EffectiveLimits.merge cfg role quota).maxPasteBytes ≤ cfg.maxFileBytes + headroom := by
  rw [← filesWithin_iff role quota]
  refine and_congr_right fun _ => ?_
  unfold EffectiveLimits.merge
  cases role with
  | none => simp
  | some r => cases hpaste : r.maxPasteBytes <;> simp [hpaste]

/-- **The limit is no lower than those of a user** exactly if the role stays within the largest file of the instance;
and the layer in front refuses no upload within them exactly if its files do.  (The body of a request for a paste is
JSON or a form, and longer than the paste.) -/
theorem backstop_iff (hcfg : cfg.validate = .ok ()) (hmax : cfg.maxFileBytes ≤ 2 ^ 62) (role : Option Role)
    (quota : Option ℤ) :
    ((EffectiveLimits.merge cfg role quota).maxFileBytes + headroom ≤ cfg.bodyLimit ∧
      (EffectiveLimits.merge cfg role quota).maxPasteBytes ≤ cfg.bodyLimit ↔ RoleWithin cfg role) ∧
    (Admits cfg.bodyLimit (EffectiveLimits.merge cfg role quota).maxFileBytes ↔ FilesWithin cfg role) := by
  have hpos := InstanceConfig.maxFileBytes_pos hcfg
  have hroom : headroom = 2097152 := rfl
  have hlimit := bodyLimit_of_fits hpos (by omega)
  rw [roleWithin_iff role quota, filesWithin_iff role quota]
  generalize EffectiveLimits.merge cfg role quota = limits
  unfold Admits bodyRefused
  rw [hlimit]
  refine ⟨by omega, ?_, ?_⟩
  · intro hfile
    by_contra hgreater
    exact hfile limits.maxFileBytes headroom (by omega) le_rfl (by omega) le_rfl (by omega)
  · intro hfile size framing _ hsize _ hframing
    omega

theorem backstop_iff_default :
    Admits InstanceConfig.default.bodyLimit (EffectiveLimits.merge .default none none).maxFileBytes ∧
    (EffectiveLimits.merge .default none none).maxPasteBytes ≤ InstanceConfig.default.bodyLimit := by
  have hwithin : RoleWithin .default none := (roleWithin_iff none none).2 ⟨by decide, by decide⟩
  obtain ⟨hinequalities, hadmits⟩ := backstop_iff InstanceConfig.validate_default (by decide) none none
  exact ⟨hadmits.2 hwithin.1, (hinequalities.2 hwithin).2⟩

/-- A role with files of up to a gibibyte. -/
def generousRole : Role := { maxOnlyRole 2592000 with maxExpirySecs := none, maxFileBytes := some (2 ^ 30) }

theorem bodyLimit_default : (InstanceConfig.default.bodyLimit : ℤ) = 106954752 := by
  rw [@bodyLimit_of_fits .default (by decide) (by decide)]
  rfl

/-- **A role that the limit contradicts**: a file that it allows is refused by the layer. -/
theorem backstop_refuses : InstanceConfig.default.validate = .ok () ∧ generousRole.toRoleInput.validate = .ok () ∧
    (EffectiveLimits.merge .default (some generousRole) none).maxFileBytes = 2 ^ 30 ∧
    bodyRefused InstanceConfig.default.bodyLimit (2 ^ 30) ∧
    ¬ (EffectiveLimits.merge .default (some generousRole) none).maxFileBytes + headroom ≤
      InstanceConfig.default.bodyLimit := by
  have hmax : (EffectiveLimits.merge .default (some generousRole) none).maxFileBytes = 2 ^ 30 := rfl
  refine ⟨InstanceConfig.validate_default, rfl, hmax, ?_, ?_⟩
  · unfold bodyRefused
    rw [bodyLimit_default]
    decide
  · rw [bodyLimit_default, hmax]
    decide

end Server
end Uwuubox
