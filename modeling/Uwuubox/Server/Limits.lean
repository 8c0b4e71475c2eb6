import Uwuubox.Dedupe.Database

/-!
# Instance settings, roles and the limits they merge to

`InstanceConfig::validate` of `src/config.rs`, `validate` of `src/routes/roles.rs`,
`effective_limits` of `src/db.rs` and `clamp_expiry` of `src/ids.rs`.

A role may leave any of its limits open; an open limit is the one of the instance.  Each side is
validated on its own.

* `InstanceConfig`, `RoleInput`, `Role` — with `validate` for the first two.
* `EffectiveLimits.merge` — the limits of a user, field by field.
* `clampExpiry` — the lifetime of an upload or a paste; `none` when `i64::clamp` panics.
* `Sound` — the limits are in order, and the clamp does what its documentation says.
* `sound_iff_fits` — **which roles merge soundly with a valid configuration**: those
  whose expiry limits are in order with the instance limits they leave open.
-/

namespace Uwuubox
namespace Server

open Dedupe

/-- The length of a string in bytes. -/
def utf8Len (t : Text) : ℕ := (t.map Char.utf8Size).sum

/-- A UUID. -/
abbrev Uuid := BitVec 128

/-! ## The instance -/

/-- `InstanceConfig`.  The numbers are `i64`; none of the functions here computes with them. -/
structure InstanceConfig where
  instanceName : Text
  tagline : Text
  iconUrl : Text
  maxFileBytes : ℤ
  maxPasteBytes : ℤ
  maxAvatarBytes : ℤ
  minExpirySecs : ℤ
  maxExpirySecs : ℤ
  defaultExpirySecs : ℤ
  allowAnonymous : Bool
  allowRegistration : Bool
  allowLocalLogin : Bool
  allowOidc : Bool
  anonymousMaxBytes : ℤ
  registrationMode : Text
  scanUploads : Bool
  blockEncryptedArchives : Bool
  allowAnonymousNeverExpiry : Bool
  allowNeverExpiry : Bool
deriving DecidableEq

/-- `open`. -/
def modeOpen : Text := ['o', 'p', 'e', 'n']

/-- `invite`. -/
def modeInvite : Text := ['i', 'n', 'v', 'i', 't', 'e']

/-- `closed`. -/
def modeClosed : Text := ['c', 'l', 'o', 's', 'e', 'd']

namespace InstanceConfig

/-- `InstanceConfig::default`. -/
def default : InstanceConfig where
  instanceName := ['u', 'w', 'u', 'u', 'b', 'o', 'x']
  tagline := []
  iconUrl := []
  maxFileBytes := 104857600
  maxPasteBytes := 1048576
  maxAvatarBytes := 2097152
  minExpirySecs := 600
  maxExpirySecs := 2592000
  defaultExpirySecs := 86400
  allowAnonymous := true
  allowRegistration := true
  allowLocalLogin := true
  allowOidc := false
  anonymousMaxBytes := 26214400
  registrationMode := modeOpen
  scanUploads := false
  blockEncryptedArchives := false
  allowAnonymousNeverExpiry := false
  allowNeverExpiry := true

/-- The numbers that must be positive, in the order in which they are checked. -/
def positives (cfg : InstanceConfig) : List (String × ℤ) :=
  [("max_file_bytes", cfg.maxFileBytes), ("max_paste_bytes", cfg.maxPasteBytes),
    ("max_avatar_bytes", cfg.maxAvatarBytes), ("min_expiry_secs", cfg.minExpirySecs),
    ("max_expiry_secs", cfg.maxExpirySecs), ("default_expiry_secs", cfg.defaultExpirySecs),
    ("anonymous_max_bytes", cfg.anonymousMaxBytes)]

/-- `https://`. -/
def httpsScheme : Text := ['h', 't', 't', 'p', 's', ':', '/', '/']

/-- `InstanceConfig::validate`: names the violated inequality on failure. -/
def validate (cfg : InstanceConfig) : Except String Unit :=
  if utf8Len cfg.tagline > 140 then .error "tagline must be <= 140 chars"
  else if utf8Len cfg.iconUrl > 512 then .error "icon_url must be <= 512 chars"
  else if !(cfg.iconUrl.isEmpty || httpsScheme.isPrefixOf cfg.iconUrl ||
      ['/'].isPrefixOf cfg.iconUrl) then
    .error "icon_url must be https:// or a site-relative path"
  else match cfg.positives.find? fun kv => kv.2 ≤ 0 with
    | some (k, _) => .error s!"{k} must be positive"
    | none =>
      if cfg.anonymousMaxBytes > cfg.maxFileBytes then
        .error "anonymous_max_bytes <= max_file_bytes violated"
      else if cfg.minExpirySecs > cfg.defaultExpirySecs then
        .error "min_expiry_secs <= default_expiry_secs violated"
      else if cfg.defaultExpirySecs > cfg.maxExpirySecs then
        .error "default_expiry_secs <= max_expiry_secs violated"
      else if cfg.registrationMode = modeOpen ∨ cfg.registrationMode = modeInvite ∨
          cfg.registrationMode = modeClosed then .ok ()
      else .error "registration_mode must be open|invite|closed"

/-- Whether a caller may store content that never expires. -/
def allowNever (cfg : InstanceConfig) (authed : Bool) : Bool :=
  cfg.allowNeverExpiry && (authed || cfg.allowAnonymousNeverExpiry)

/-- The expiry limits of a valid configuration are in order. -/
theorem ordered_of_validate {cfg : InstanceConfig} (h : cfg.validate = .ok ()) :
    cfg.minExpirySecs ≤ cfg.defaultExpirySecs ∧ cfg.defaultExpirySecs ≤ cfg.maxExpirySecs := by
  simp only [validate] at h
  repeat' split at h
  all_goals first
    | exact ⟨by omega, by omega⟩
    | cases h

theorem validate_default : InstanceConfig.default.validate = .ok () := rfl

end InstanceConfig

/-! ## Roles -/

/-- `RoleInput`: the form of a role. -/
structure RoleInput where
  name : Text
  maxFileBytes : Option ℤ
  maxPasteBytes : Option ℤ
  maxAvatarBytes : Option ℤ
  minExpirySecs : Option ℤ
  maxExpirySecs : Option ℤ
  defaultExpirySecs : Option ℤ
  quotaBytes : Option ℤ
  canPublishPublic : Bool
  canBurn : Bool
  canComment : Bool
  canCreateCollections : Bool
  canModerate : Bool
deriving DecidableEq

/-- A row of `roles`: what `create` and `update` store of their form. -/
structure Role extends RoleInput where
  id : Uuid
deriving DecidableEq

/-- A letter of a role name. -/
def isRoleChar (c : Char) : Bool :=
  ('a' ≤ c && c ≤ 'z') || ('0' ≤ c && c ≤ '9') || c == '_' || c == '-'

/-- `validate_name`. -/
def validateName (name : Text) : Except String Unit :=
  if ¬ (3 ≤ utf8Len name ∧ utf8Len name ≤ 32) then .error "role name must be 3 to 32 characters"
  else if !name.all isRoleChar then
    .error "role name may contain only lowercase a-z, 0-9, _ and -"
  else .ok ()

/-- `validate` of `src/routes/roles.rs`. -/
def RoleInput.validate (input : RoleInput) : Except String Unit :=
  match validateName input.name with
  | .error e => .error e
  | .ok () =>
    if input.quotaBytes.any fun quota => quota < 0 then .error "quota_bytes must be at least 0"
    else match input.minExpirySecs, input.defaultExpirySecs, input.maxExpirySecs with
      | some min, some default, some max =>
        if ¬ (min ≤ default ∧ default ≤ max) then
          .error "expiry limits must satisfy min <= default <= max"
        else .ok ()
      | _, _, _ => .ok ()

/-- Only a role that sets all three limits has them checked. -/
theorem RoleInput.ordered_of_validate {input : RoleInput} (h : input.validate = .ok ())
    {min default max : ℤ} (hmin : input.minExpirySecs = some min)
    (hdefault : input.defaultExpirySecs = some default) (hmax : input.maxExpirySecs = some max) :
    min ≤ default ∧ default ≤ max := by
  simp only [validate, hmin, hdefault, hmax] at h
  repeat' split at h
  all_goals first
    | exact not_not.1 ‹_›
    | cases h

/-! ## Merging -/

/-- Resolved caps of a user. -/
structure EffectiveLimits where
  maxFileBytes : ℤ
  maxPasteBytes : ℤ
  maxAvatarBytes : ℤ
  minExpirySecs : ℤ
  maxExpirySecs : ℤ
  defaultExpirySecs : ℤ
  quotaBytes : Option ℤ
  canPublishPublic : Bool
  canBurn : Bool
  canComment : Bool
  canCreateCollections : Bool
  canModerate : Bool
deriving DecidableEq

/-- `effective_limits`, once the role of the user has been read: role overrides, `NULL` falls
back to the instance. -/
def EffectiveLimits.merge (cfg : InstanceConfig) (role : Option Role)
    (quotaOverrideBytes : Option ℤ) : EffectiveLimits :=
  let pick (r : Option ℤ) (d : ℤ) : ℤ := r.getD d
  { maxFileBytes := pick (role.bind (·.maxFileBytes)) cfg.maxFileBytes
    maxPasteBytes := pick (role.bind (·.maxPasteBytes)) cfg.maxPasteBytes
    maxAvatarBytes := pick (role.bind (·.maxAvatarBytes)) cfg.maxAvatarBytes
    minExpirySecs := pick (role.bind (·.minExpirySecs)) cfg.minExpirySecs
    maxExpirySecs := pick (role.bind (·.maxExpirySecs)) cfg.maxExpirySecs
    defaultExpirySecs := pick (role.bind (·.defaultExpirySecs)) cfg.defaultExpirySecs
    quotaBytes := quotaOverrideBytes.or (role.bind (·.quotaBytes))
    canPublishPublic := (role.map (·.canPublishPublic)).getD true
    canBurn := (role.map (·.canBurn)).getD true
    canComment := (role.map (·.canComment)).getD true
    canCreateCollections := (role.map (·.canCreateCollections)).getD true
    canModerate := (role.map (·.canModerate)).getD false }

/-! ## Lifetimes -/

/-- What the caller wants for content lifetime. -/
inductive ExpiryRequest where
  | default
  | never
  | inSecs (secs : ℤ)
deriving DecidableEq

/-- `i64::clamp`, which panics on an empty interval. -/
def clamp (x min max : ℤ) : Option ℤ := if min ≤ max then some (Max.max min (Min.min x max)) else none

/-- `clamp_expiry`: `none` is a panic, an error is a 400, `ok none` never expires. -/
def clampExpiry (requested : ExpiryRequest) (minSecs defaultSecs maxSecs : ℤ) (allowNever : Bool) :
    Option (Except Unit (Option ℤ)) :=
  match requested with
  | .default => some (.ok (some defaultSecs))
  | .never => if allowNever then some (.ok none) else some (.error ())
  | .inSecs secs =>
    match clamp secs minSecs maxSecs with
    | some secs => some (.ok (some secs))
    | none => none

/-- `clamp_expiry` under the limits of a user. -/
def EffectiveLimits.clamp (limits : EffectiveLimits) (requested : ExpiryRequest) (allowNever : Bool) :
    Option (Except Unit (Option ℤ)) :=
  clampExpiry requested limits.minExpirySecs limits.defaultExpirySecs limits.maxExpirySecs allowNever

/-- The expiry limits are in order. -/
def EffectiveLimits.Ordered (limits : EffectiveLimits) : Prop :=
  limits.minExpirySecs ≤ limits.defaultExpirySecs ∧ limits.defaultExpirySecs ≤ limits.maxExpirySecs

/-- The limits are in order, and a request is refused, or kept for ever where that is
allowed, or given a lifetime within the limits; in any case nothing panics. -/
structure EffectiveLimits.Sound (limits : EffectiveLimits) (requested : ExpiryRequest)
    (allowNever : Bool) : Prop where
  ordered : limits.Ordered
  lifetime : ∃ r, limits.clamp requested allowNever = some r ∧ match r with
    | .error () => True
    | .ok none => allowNever = true
    | .ok (some secs) => limits.minExpirySecs ≤ secs ∧ secs ≤ limits.maxExpirySecs

theorem clamp_mem {x min max : ℤ} (h : min ≤ max) : ∃ secs, clamp x min max = some secs ∧
    min ≤ secs ∧ secs ≤ max := by
  refine ⟨_, if_pos h, ?_, ?_⟩ <;> omega

/-- Limits in order are all that a sound clamp needs. -/
theorem EffectiveLimits.Ordered.sound {limits : EffectiveLimits} (h : limits.Ordered)
    (requested : ExpiryRequest) (allowNever : Bool) : limits.Sound requested allowNever := by
  refine ⟨h, ?_⟩
  cases requested with
  | default => exact ⟨_, rfl, h⟩
  | never =>
    cases allowNever with
    | true => exact ⟨_, rfl, rfl⟩
    | false => exact ⟨_, rfl, trivial⟩
  | inSecs secs =>
    obtain ⟨lifetime, hclamp, hmem⟩ := clamp_mem (x := secs) (h.1.trans h.2)
    refine ⟨.ok (some lifetime), ?_, hmem⟩
    simp only [EffectiveLimits.clamp, clampExpiry, hclamp]

/-- The expiry limits a role sets are in order with each other, and with the instance
limits next to them that it leaves open. -/
def Role.Fits (cfg : InstanceConfig) (role : Role) : Prop :=
  match role.minExpirySecs, role.defaultExpirySecs, role.maxExpirySecs with
  | none, none, none => True
  | some _, some _, some _ => True
  | some min, none, none => min ≤ cfg.defaultExpirySecs
  | none, none, some max => cfg.defaultExpirySecs ≤ max
  | some min, none, some max => min ≤ cfg.defaultExpirySecs ∧ cfg.defaultExpirySecs ≤ max
  | none, some default, none => cfg.minExpirySecs ≤ default ∧ default ≤ cfg.maxExpirySecs
  | some min, some default, none => min ≤ default ∧ default ≤ cfg.maxExpirySecs
  | none, some default, some max => cfg.minExpirySecs ≤ default ∧ default ≤ max

/-- Merged limits are in order exactly if the role fits. -/
theorem ordered_merge_iff {cfg : InstanceConfig} (hcfg : cfg.validate = .ok ()) {role : Role}
    (hrole : role.toRoleInput.validate = .ok ()) (quotaOverrideBytes : Option ℤ) :
    (EffectiveLimits.merge cfg (some role) quotaOverrideBytes).Ordered ↔ role.Fits cfg := by
  obtain ⟨hmin, hmax⟩ := InstanceConfig.ordered_of_validate hcfg
  have hall := @RoleInput.ordered_of_validate _ hrole
  unfold EffectiveLimits.Ordered EffectiveLimits.merge Role.Fits
  -- one case for each choice of the limits that the role sets
  cases h₁ : role.minExpirySecs <;> cases h₂ : role.defaultExpirySecs <;>
    cases h₃ : role.maxExpirySecs <;> simp only [Option.bind_some, Option.getD, h₁, h₂, h₃]
  case none.none.none => exact iff_of_true ⟨hmin, hmax⟩ trivial
  case some.some.some => exact iff_of_true (hall h₁ h₂ h₃) trivial
  all_goals omega

/-- **Which roles merge soundly.**  For a valid configuration, a user with a valid role or with
none, and any request: the merged limits are in order and the clamp is sound exactly if the role,
where there is one, fits the configuration. -/
theorem sound_iff_fits {cfg : InstanceConfig} (hcfg : cfg.validate = .ok ()) {role : Option Role}
    (hrole : ∀ r ∈ role, r.toRoleInput.validate = .ok ()) (quotaOverrideBytes : Option ℤ)
    (authed : Bool) (requested : ExpiryRequest) :
    (EffectiveLimits.merge cfg role quotaOverrideBytes).Sound requested (cfg.allowNever authed) ↔
      ∀ r ∈ role, r.Fits cfg := by
  have hiff : (EffectiveLimits.merge cfg role quotaOverrideBytes).Ordered ↔ ∀ r ∈ role, r.Fits cfg := by
    cases role with
    | none => simpa [EffectiveLimits.Ordered, EffectiveLimits.merge] using
        InstanceConfig.ordered_of_validate hcfg
    | some r =>
      rw [ordered_merge_iff hcfg (hrole r rfl)]
      simp
  rw [← hiff]
  exact ⟨fun h => h.ordered, fun h => h.sound requested _⟩

/-! ### A role with a single limit -/

/-- A role that sets only a maximal lifetime. -/
def maxOnlyRole (secs : ℤ) : Role where
  name := ['s', 'h', 'o', 'r', 't']
  maxFileBytes := none
  maxPasteBytes := none
  maxAvatarBytes := none
  minExpirySecs := none
  maxExpirySecs := some secs
  defaultExpirySecs := none
  quotaBytes := none
  canPublishPublic := true
  canBurn := true
  canComment := true
  canCreateCollections := true
  canModerate := false
  id := 1

theorem sound_iff_fits_maxOnly :
    (EffectiveLimits.merge .default (some (maxOnlyRole 100000)) none).Sound (.inSecs 50)
      (InstanceConfig.default.allowNever true) :=
  (sound_iff_fits InstanceConfig.validate_default
    (fun r (hr : some (maxOnlyRole 100000) = some r) => by cases hr; rfl) none true (.inSecs 50)).2
    fun r hr => by
      cases hr
      show (86400 : ℤ) ≤ 100000
      decide

/-- A maximum of a minute, beside the minimum of ten that the instance has: both pass their
validation, the merged limits are inverted, and a request for 100 seconds panics. -/
theorem inverted_maxOnly :
    InstanceConfig.default.validate = .ok () ∧
    (maxOnlyRole 60).toRoleInput.validate = .ok () ∧
    ¬ (EffectiveLimits.merge .default (some (maxOnlyRole 60)) none).Sound (.inSecs 100)
      (InstanceConfig.default.allowNever true) ∧
    (EffectiveLimits.merge .default (some (maxOnlyRole 60)) none).clamp (.inSecs 100) true = none := by
  refine ⟨rfl, rfl, fun h => ?_, rfl⟩
  exact absurd h.ordered.2 (by decide)

end Server
end Uwuubox
