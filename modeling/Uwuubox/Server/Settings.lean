import Uwuubox.Server.Words

/-!
# The settings of the instance in their table

`set_instance_config` of `src/db.rs` writes a row for each setting, in one transaction, and `instance_config` reads all
rows into `InstanceConfig::from_map`, which has a default for what is missing or cannot be parsed.

* `asPairs`, `fromMap` — the two lists of the settings.
* `setInstanceConfig` — the rows after a save; a text column has no place for U+0000.
* `parseI64_i64Text` — a number is read back as it was.
* `fromMap_of_asPairs` — so is every setting that has its row, but for an empty name.
* `settings_survive` — **a configuration that is saved is read back**, except that an empty name is the default one.
-/

namespace Uwuubox
namespace Server

open Dedupe

/-! ## Texts of values -/

/-- `i64::to_string` -/
def i64Text : ℤ → Text
  | .ofNat n => Nat.toDigits 10 n
  | .negSucc n => '-' :: Nat.toDigits 10 (n + 1)

def trueText : Text := ['t', 'r', 'u', 'e']

def falseText : Text := ['f', 'a', 'l', 's', 'e']

/-- `bool::to_string` -/
def boolText (b : Bool) : Text := if b then trueText else falseText

/-- `parse_bool`, with `str::to_lowercase`. -/
def parseBool (toLowercase : Text → Text) (s : Text) : Option Bool := boolWord (toLowercase (trim s))

theorem digitsOf_toDigits (n : ℕ) : parseI64.digitsOf (Nat.toDigits 10 n) = some n := by
  have hne : (Nat.toDigits 10 n).isEmpty = false := by
    rw [List.isEmpty_eq_false_iff]
    exact List.ne_nil_of_length_pos Nat.length_toDigits_pos
  have hall : (Nat.toDigits 10 n).all Char.isDigit = true := List.all_eq_true.2 (isDigit_toDigits n)
  have hfold : (Nat.toDigits 10 n).foldl (fun n c => 10 * n + (c.toNat - '0'.toNat)) 0 = n := by
    rw [← Nat.ofDigitChars_eq_foldl, Nat.ofDigitChars_ten_toDigits]
  unfold parseI64.digitsOf
  rw [hne, hall, hfold]
  rfl

/-- A number does not begin with a sign. -/
theorem head_toDigits (n : ℕ) : ∃ c rest, Nat.toDigits 10 n = c :: rest ∧ c ≠ '-' ∧ c ≠ '+' := by
  have hdigits := isDigit_toDigits n
  cases htext : Nat.toDigits 10 n with
  | nil =>
    have hpos : 0 < (Nat.toDigits 10 n).length := Nat.length_toDigits_pos
    simp [htext] at hpos
  | cons c rest =>
    have hc := hdigits c (by rw [htext]; exact List.mem_cons_self)
    refine ⟨c, rest, rfl, ?_, ?_⟩
    · rintro rfl
      simp at hc
    · rintro rfl
      simp at hc

/-- **A number is read back** as it was. -/
theorem parseI64_i64Text {n : ℤ} (hlow : -2 ^ 63 ≤ n) (hhigh : n < 2 ^ 63) : parseI64 (i64Text n) = some n := by
  cases n with
  | ofNat n =>
    have hfits : n < 2 ^ 63 := by
      have hcast : (n : ℤ) < 2 ^ 63 := hhigh
      omega
    obtain ⟨c, rest, htext, hminus, hplus⟩ := head_toDigits n
    have hdigits := digitsOf_toDigits n
    unfold i64Text parseI64
    rw [htext] at hdigits
    simp only [htext]
    split
    · rename_i heq
      exact absurd (List.cons.inj heq).1 hminus
    · rename_i heq
      exact absurd (List.cons.inj heq).1 hplus
    · rw [hdigits, Option.bind_some, if_pos hfits]
      rfl
  | negSucc n =>
    have hfits : n + 1 ≤ 2 ^ 63 := by
      have hcast : -2 ^ 63 ≤ Int.negSucc n := hlow
      rw [Int.negSucc_eq] at hcast
      omega
    show (parseI64.digitsOf (Nat.toDigits 10 (n + 1))).bind _ = _
    rw [digitsOf_toDigits, Option.bind_some, if_pos hfits]
    rfl

/-- A flag is read back, if lower-case letters stay as they are. -/
theorem parseBool_boolText {toLowercase : Text → Text}
    (hlower : ∀ t : Text, (∀ c ∈ t, 'a' ≤ c ∧ c ≤ 'z') → toLowercase t = t) (b : Bool) :
    parseBool toLowercase (boolText b) = some b := by
  have hletters : ∀ c ∈ boolText b, 'a' ≤ c ∧ c ≤ 'z' := by
    cases b <;> simp [boolText, trueText, falseText]
  have htrim : trim (boolText b) = boolText b := by
    cases b <;> decide
  unfold parseBool
  rw [htrim, hlower _ hletters]
  cases b <;> decide

/-! ## The rows -/

/-- The column `value` of `instance_config`, by `key`. -/
abbrev ConfigTable := String → Option Text

namespace InstanceConfig

/-- `InstanceConfig::as_pairs` -/
def asPairs (cfg : InstanceConfig) : List (String × Text) :=
  [("instance_name", cfg.instanceName), ("tagline", cfg.tagline), ("icon_url", cfg.iconUrl),
    ("max_file_bytes", i64Text cfg.maxFileBytes), ("max_paste_bytes", i64Text cfg.maxPasteBytes),
    ("max_avatar_bytes", i64Text cfg.maxAvatarBytes), ("min_expiry_secs", i64Text cfg.minExpirySecs),
    ("max_expiry_secs", i64Text cfg.maxExpirySecs), ("default_expiry_secs", i64Text cfg.defaultExpirySecs),
    ("allow_anonymous", boolText cfg.allowAnonymous), ("allow_registration", boolText cfg.allowRegistration),
    ("allow_local_login", boolText cfg.allowLocalLogin), ("allow_oidc", boolText cfg.allowOidc),
    ("anonymous_max_bytes", i64Text cfg.anonymousMaxBytes), ("registration_mode", cfg.registrationMode),
    ("scan_uploads", boolText cfg.scanUploads), ("block_encrypted_archives", boolText cfg.blockEncryptedArchives),
    ("allow_anonymous_never_expiry", boolText cfg.allowAnonymousNeverExpiry),
    ("allow_never_expiry", boolText cfg.allowNeverExpiry)]

/-- `InstanceConfig::from_map`, with `str::to_lowercase`. -/
def fromMap (toLowercase : Text → Text) (map : ConfigTable) : InstanceConfig :=
  let cfg := InstanceConfig.default
  let get (k : String) : Text := (map k).getD []
  let num (k : String) (cur : ℤ) : ℤ := ((map k).bind parseI64).getD cur
  let flag (k : String) (cur : Bool) : Bool := ((map k).bind (parseBool toLowercase)).getD cur
  { instanceName := if !(get "instance_name").isEmpty then get "instance_name" else cfg.instanceName
    -- these two may be empty: a row is enough
    tagline := (map "tagline").getD cfg.tagline
    iconUrl := (map "icon_url").getD cfg.iconUrl
    maxFileBytes := num "max_file_bytes" cfg.maxFileBytes
    maxPasteBytes := num "max_paste_bytes" cfg.maxPasteBytes
    maxAvatarBytes := num "max_avatar_bytes" cfg.maxAvatarBytes
    minExpirySecs := num "min_expiry_secs" cfg.minExpirySecs
    maxExpirySecs := num "max_expiry_secs" cfg.maxExpirySecs
    defaultExpirySecs := num "default_expiry_secs" cfg.defaultExpirySecs
    anonymousMaxBytes := num "anonymous_max_bytes" cfg.anonymousMaxBytes
    allowAnonymous := flag "allow_anonymous" cfg.allowAnonymous
    allowRegistration := flag "allow_registration" cfg.allowRegistration
    allowLocalLogin := flag "allow_local_login" cfg.allowLocalLogin
    allowOidc := flag "allow_oidc" cfg.allowOidc
    scanUploads := flag "scan_uploads" cfg.scanUploads
    blockEncryptedArchives := flag "block_encrypted_archives" cfg.blockEncryptedArchives
    allowAnonymousNeverExpiry := flag "allow_anonymous_never_expiry" cfg.allowAnonymousNeverExpiry
    allowNeverExpiry := flag "allow_never_expiry" cfg.allowNeverExpiry
    registrationMode :=
      if !(get "registration_mode").isEmpty then get "registration_mode" else cfg.registrationMode }

end InstanceConfig

/-- `INSERT .. ON CONFLICT (key) DO UPDATE`; `none` is an error of the statement. -/
def upsert (table : ConfigTable) (pair : String × Text) : Option ConfigTable :=
  if '\x00' ∈ pair.2 then none else some (Function.update table pair.1 (some pair.2))

/-- `set_instance_config`: the rows that are committed; `none` is an error, and nothing is committed. -/
def setInstanceConfig (table : ConfigTable) (cfg : InstanceConfig) : Option ConfigTable :=
  cfg.asPairs.foldlM upsert table

/-! ## A save, and a read -/

variable {table table' : ConfigTable} {pairs : List (String × Text)} {cfg : InstanceConfig}

/-- A save fails for a value that the column cannot have. -/
theorem foldlM_upsert_eq_none : pairs.foldlM upsert table = none ↔ ∃ pair ∈ pairs, '\x00' ∈ pair.2 := by
  induction pairs generalizing table with
  | nil => simp
  | cons pair pairs ih =>
    rw [List.foldlM_cons, upsert]
    by_cases hzero : '\x00' ∈ pair.2
    · rw [if_pos hzero]
      exact iff_of_true rfl ⟨pair, List.mem_cons_self, hzero⟩
    · rw [if_neg hzero]
      simp [ih, hzero]

/-- A save leaves the rows of other keys. -/
theorem foldlM_upsert_of_not_mem (h : pairs.foldlM upsert table = some table') {key : String}
    (hkey : key ∉ pairs.map Prod.fst) : table' key = table key := by
  induction pairs generalizing table with
  | nil =>
    cases h
    rfl
  | cons pair pairs ih =>
    rw [List.foldlM_cons, upsert] at h
    rw [List.map_cons, List.mem_cons, not_or] at hkey
    by_cases hzero : '\x00' ∈ pair.2
    · simp [hzero] at h
    · rw [if_neg hzero] at h
      rw [ih h hkey.2, Function.update_of_ne hkey.1]

/-- What is saved is in its row. -/
theorem foldlM_upsert_of_mem (h : pairs.foldlM upsert table = some table') (hkeys : (pairs.map Prod.fst).Nodup)
    {pair : String × Text} (hpair : pair ∈ pairs) : table' pair.1 = some pair.2 := by
  induction pairs generalizing table with
  | nil => cases hpair
  | cons first pairs ih =>
    rw [List.foldlM_cons, upsert] at h
    rw [List.map_cons, List.nodup_cons] at hkeys
    by_cases hzero : '\x00' ∈ first.2
    · simp [hzero] at h
    · rw [if_neg hzero] at h
      rcases List.mem_cons.1 hpair with rfl | hpair
      · rw [foldlM_upsert_of_not_mem h hkeys.1, Function.update_self]
      · exact ih h hkeys.2 hpair

theorem nodup_keys (cfg : InstanceConfig) : (cfg.asPairs.map Prod.fst).Nodup := by
  simp [InstanceConfig.asPairs]

/-- The numbers are in the range of `i64`. -/
def Fits64 (cfg : InstanceConfig) : Prop := ∀ kv ∈ cfg.positives, -2 ^ 63 ≤ kv.2 ∧ kv.2 < 2 ^ 63

/-- **Settings that have their rows are read back**, but for an empty name and an empty mode. -/
theorem fromMap_of_asPairs {toLowercase : Text → Text}
    (hlower : ∀ t : Text, (∀ c ∈ t, 'a' ≤ c ∧ c ≤ 'z') → toLowercase t = t) (hfits : Fits64 cfg)
    (hmode : cfg.registrationMode ≠ []) (hrows : ∀ pair ∈ cfg.asPairs, table pair.1 = some pair.2) :
    InstanceConfig.fromMap toLowercase table =
      { cfg with instanceName :=
          if !cfg.instanceName.isEmpty then cfg.instanceName else InstanceConfig.default.instanceName } := by
  simp only [InstanceConfig.asPairs, List.forall_mem_cons] at hrows
  obtain ⟨h₁, h₂, h₃, h₄, h₅, h₆, h₇, h₈, h₉, h₁₀, h₁₁, h₁₂, h₁₃, h₁₄, h₁₅, h₁₆, h₁₇, h₁₈, h₁₉, -⟩ := hrows
  have hnumber : ∀ kv ∈ cfg.positives, parseI64 (i64Text kv.2) = some kv.2 := fun kv hkv =>
    parseI64_i64Text (hfits kv hkv).1 (hfits kv hkv).2
  simp only [InstanceConfig.positives, List.forall_mem_cons] at hnumber
  obtain ⟨n₁, n₂, n₃, n₄, n₅, n₆, n₇, -⟩ := hnumber
  have hflag := parseBool_boolText hlower
  have hmode : cfg.registrationMode.isEmpty = false := List.isEmpty_eq_false_iff.2 hmode
  unfold InstanceConfig.fromMap
  simp [*]

theorem InstanceConfig.mode_of_validate (h : cfg.validate = .ok ()) :
    cfg.registrationMode = modeOpen ∨ cfg.registrationMode = modeInvite ∨ cfg.registrationMode = modeClosed := by
  simp only [validate] at h
  repeat' split at h
  all_goals first
    | assumption
    | cases h

/-- What is read after a save. -/
theorem fromMap_of_save {toLowercase : Text → Text}
    (hlower : ∀ t : Text, (∀ c ∈ t, 'a' ≤ c ∧ c ≤ 'z') → toLowercase t = t) (hcfg : cfg.validate = .ok ())
    (hfits : Fits64 cfg) (hsave : setInstanceConfig table cfg = some table') :
    InstanceConfig.fromMap toLowercase table' =
      { cfg with instanceName :=
          if !cfg.instanceName.isEmpty then cfg.instanceName else InstanceConfig.default.instanceName } := by
  have hmode : cfg.registrationMode ≠ [] := by
    rcases InstanceConfig.mode_of_validate hcfg with h | h | h <;> simp [h, modeOpen, modeInvite, modeClosed]
  exact fromMap_of_asPairs hlower hfits hmode fun pair hpair => foldlM_upsert_of_mem hsave (nodup_keys cfg) hpair

theorem zero_not_mem_i64Text (n : ℤ) : '\x00' ∉ i64Text n := by
  have hdigits : ∀ n : ℕ, '\x00' ∉ Nat.toDigits 10 n := by
    intro n hmem
    have hdigit := isDigit_toDigits n _ hmem
    simp at hdigit
  cases n with
  | ofNat n => exact hdigits n
  | negSucc n =>
    intro hmem
    rcases List.mem_cons.1 hmem with heq | hmem
    · simp at heq
    · exact hdigits _ hmem

theorem zero_not_mem_boolText (b : Bool) : '\x00' ∉ boolText b := by
  cases b <;> simp [boolText, trueText, falseText]

/-- Only the three texts that are free can have a character that the column cannot. -/
theorem exists_zero_iff (hcfg : cfg.validate = .ok ()) : (∃ pair ∈ cfg.asPairs, '\x00' ∈ pair.2) ↔
    '\x00' ∈ cfg.instanceName ∨ '\x00' ∈ cfg.tagline ∨ '\x00' ∈ cfg.iconUrl := by
  have hmode : '\x00' ∉ cfg.registrationMode := by
    rcases InstanceConfig.mode_of_validate hcfg with h | h | h <;> simp [h, modeOpen, modeInvite, modeClosed]
  simp [InstanceConfig.asPairs, zero_not_mem_i64Text, zero_not_mem_boolText, hmode]

/-- **A configuration that is saved is read back** in every setting, except that an empty name is read as the default
one; other rows stay.  It cannot be saved exactly if one of its texts has the character U+0000. -/
theorem settings_survive {toLowercase : Text → Text}
    (hlower : ∀ t : Text, (∀ c ∈ t, 'a' ≤ c ∧ c ≤ 'z') → toLowercase t = t) (hcfg : cfg.validate = .ok ())
    (hfits : Fits64 cfg) (table : ConfigTable) :
    (setInstanceConfig table cfg = none ↔
      '\x00' ∈ cfg.instanceName ∨ '\x00' ∈ cfg.tagline ∨ '\x00' ∈ cfg.iconUrl) ∧
    ∀ table', setInstanceConfig table cfg = some table' →
      InstanceConfig.fromMap toLowercase table' =
        { cfg with instanceName :=
            if !cfg.instanceName.isEmpty then cfg.instanceName else InstanceConfig.default.instanceName } ∧
      ∀ key ∉ cfg.asPairs.map Prod.fst, table' key = table key := by
  refine ⟨foldlM_upsert_eq_none.trans (exists_zero_iff hcfg), fun table' hsave => ⟨?_, fun key hkey => ?_⟩⟩
  · exact fromMap_of_save hlower hcfg hfits hsave
  · exact foldlM_upsert_of_not_mem hsave hkey

/-- The default settings, with a name or without. -/
def named (name : Text) : InstanceConfig := { InstanceConfig.default with instanceName := name }

/-- `to_lowercase` for ASCII. -/
def asciiLowercase (t : Text) : Text := t.map Char.toLower

theorem asciiLowercase_letters (t : Text) (h : ∀ c ∈ t, 'a' ≤ c ∧ c ≤ 'z') : asciiLowercase t = t := by
  refine (List.map_congr_left fun c hc => ?_).trans (List.map_id t)
  unfold Char.toLower
  refine dif_neg fun hupper => ?_
  have hlow : 97 ≤ c.val.toNat := (h c hc).1
  have hhigh : c.val.toNat ≤ 90 := hupper.2
  omega

theorem fits64_named (name : Text) : Fits64 (named name) := by
  simp [Fits64, InstanceConfig.positives, named, InstanceConfig.default]

theorem settings_survive_named : ∃ table, setInstanceConfig (fun _ => none) (named ['u', 'w', 'u']) = some table ∧
    InstanceConfig.fromMap asciiLowercase table = named ['u', 'w', 'u'] := by
  obtain ⟨hfails, hread⟩ := settings_survive asciiLowercase_letters (rfl : (named ['u', 'w', 'u']).validate = .ok ())
    (fits64_named _) fun _ => none
  cases hsave : setInstanceConfig (fun _ => none) (named ['u', 'w', 'u']) with
  | none => exact absurd (hfails.1 hsave) (by simp [named, InstanceConfig.default])
  | some table => exact ⟨table, rfl, (hread table hsave).1⟩

/-- **An empty name does not survive**: it passes the validation, and is read back as the default one. -/
theorem emptyName_lost : (named []).validate = .ok () ∧
    ∃ table, setInstanceConfig (fun _ => none) (named []) = some table ∧
      (InstanceConfig.fromMap asciiLowercase table).instanceName = InstanceConfig.default.instanceName ∧
      InstanceConfig.fromMap asciiLowercase table ≠ named [] := by
  refine ⟨rfl, ?_⟩
  cases hsave : setInstanceConfig (fun _ => none) (named []) with
  | none =>
    have hzero := (exists_zero_iff rfl).1 (foldlM_upsert_eq_none.1 hsave)
    simp [named, InstanceConfig.default] at hzero
  | some table =>
    have hread := fromMap_of_save asciiLowercase_letters rfl (fits64_named []) hsave
    refine ⟨table, rfl, by rw [hread]; rfl, ?_⟩
    rw [hread]
    intro heq
    exact absurd (congrArg InstanceConfig.instanceName heq) (by decide)

end Server
end Uwuubox
