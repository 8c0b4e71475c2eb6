import Uwuubox.Prog.Evaluate
import Uwuubox.Server.BodyLimit
import Uwuubox.Server.Settings
import Uwuubox.Server.Usernames

/-!
# The form of the settings

`update_config` of `src/routes/admin.rs` reads the settings, puts the fields of a form over them and saves what comes
of it; it and `spawn_refresher` of `src/body_limit.rs` store the limit on request bodies.  `templates/admin.html` is the
page that sends the form.

* `takeForm`, `changedKeys` — the settings after a form, and what has changed.
* `updateConfig`, `refresh` — the handler, and one tick of the refresher, as programs.
* `pageForm` — what a browser sends for the page as it was shown; `takeForm_pageForm` is what comes of it.
* `settings_stay_sound` — **the settings stay valid**, whatever forms are saved at the same time.
* `takeForm_error`, `eval_updateConfig_refused` — a refusal names the field, and changes nothing.
* `page_turns_off` — **the page is not saved as it was shown**: it has no box for `block_encrypted_archives`.
-/

namespace Uwuubox
namespace Server
namespace Config

open Dedupe Fallible

/-! ## The form -/

/-- The fields of a request, by their names. -/
abbrev Form := String → Option Text

/-- A setting that a form may have. -/
structure Slot (α : Type) where
  key : String
  set : InstanceConfig → α → InstanceConfig

def textSlots : List (Slot Text) :=
  [⟨"instance_name", fun cfg value => { cfg with instanceName := value }⟩,
    ⟨"tagline", fun cfg value => { cfg with tagline := value }⟩,
    ⟨"icon_url", fun cfg value => { cfg with iconUrl := value }⟩,
    ⟨"registration_mode", fun cfg value => { cfg with registrationMode := value }⟩]

def numberSlots : List (Slot ℤ) :=
  [⟨"max_file_bytes", fun cfg n => { cfg with maxFileBytes := n }⟩,
    ⟨"max_paste_bytes", fun cfg n => { cfg with maxPasteBytes := n }⟩,
    ⟨"max_avatar_bytes", fun cfg n => { cfg with maxAvatarBytes := n }⟩,
    ⟨"min_expiry_secs", fun cfg n => { cfg with minExpirySecs := n }⟩,
    ⟨"max_expiry_secs", fun cfg n => { cfg with maxExpirySecs := n }⟩,
    ⟨"default_expiry_secs", fun cfg n => { cfg with defaultExpirySecs := n }⟩,
    ⟨"anonymous_max_bytes", fun cfg n => { cfg with anonymousMaxBytes := n }⟩]

/-- The flags of a form; `allow_registration` is deliberately not one of them. -/
def flagSlots : List (Slot Bool) :=
  [⟨"allow_anonymous", fun cfg b => { cfg with allowAnonymous := b }⟩,
    ⟨"allow_local_login", fun cfg b => { cfg with allowLocalLogin := b }⟩,
    ⟨"allow_oidc", fun cfg b => { cfg with allowOidc := b }⟩,
    ⟨"scan_uploads", fun cfg b => { cfg with scanUploads := b }⟩,
    ⟨"block_encrypted_archives", fun cfg b => { cfg with blockEncryptedArchives := b }⟩,
    ⟨"allow_anonymous_never_expiry", fun cfg b => { cfg with allowAnonymousNeverExpiry := b }⟩,
    ⟨"allow_never_expiry", fun cfg b => { cfg with allowNeverExpiry := b }⟩]

def takeText (form : Form) (cfg : InstanceConfig) (slot : Slot Text) : InstanceConfig :=
  match form slot.key with
  | some value => slot.set cfg (trim value)
  | none => cfg

def takeNumber (form : Form) (cfg : InstanceConfig) (slot : Slot ℤ) : Except String InstanceConfig :=
  match form slot.key with
  | some value =>
    match parseI64 (trim value) with
    | some n => .ok (slot.set cfg n)
    | none => .error s!"{slot.key} must be a number"
  | none => .ok cfg

/-- `parse_flag`, with `str::to_lowercase`. -/
def parseFlag (toLowercase : Text → Text) (value : Text) : Option Bool := boolWord (toLowercase (trim value))

def takeFlag (toLowercase : Text → Text) (form : Form) (cfg : InstanceConfig) (slot : Slot Bool) :
    Except String InstanceConfig :=
  match form slot.key with
  | some value =>
    match parseFlag toLowercase value with
    | some b => .ok (slot.set cfg b)
    | none => .error s!"{slot.key} must be true|false"
  -- an unchecked box is not in the form
  | none => .ok (slot.set cfg false)

/-- The settings with the fields of the form over them. -/
def takeForm (toLowercase : Text → Text) (form : Form) (cfg : InstanceConfig) : Except String InstanceConfig := do
  let cfg ← numberSlots.foldlM (takeNumber form) (textSlots.foldl (takeText form) cfg)
  flagSlots.foldlM (takeFlag toLowercase form) cfg

/-- `changed_keys` -/
def changedKeys (before cfg : InstanceConfig) : List String :=
  cfg.asPairs.filterMap fun pair => if before.asPairs.lookup pair.1 ≠ some pair.2 then some pair.1 else none

/-! ## The programs -/

/-- What `update_config` and the refresher ask for. -/
inductive Op
  | read
  | save (cfg : InstanceConfig)
  | audit (changed : List String)
  | storeLimit (limit : ℕ)

/-- The answers; `none` and `false` are errors of the database. -/
abbrev Op.Res : Op → Type
  | .read => Option InstanceConfig
  | .save _ => Bool
  | .audit _ => Bool
  | .storeLimit _ => Unit

inductive AppError
  | badRequest (message : String)
  | database

/-- The part of `update_config` that writes. -/
def saveChanges (before cfg : InstanceConfig) : Fallible Op Op.Res AppError Unit :=
  if (changedKeys before cfg).isEmpty then pure ()
  else do
    let saved ← perform (.save cfg)
    reject (saved = false) .database
    let audited ← perform (.audit (changedKeys before cfg))
    reject (audited = false) .database

/-- `update_config`, for an administrator. -/
def updateConfig (toLowercase : Text → Text) (form : Form) : Fallible Op Op.Res AppError Unit := do
  let before ← orThrow (← perform .read) .database
  let cfg ← check ((takeForm toLowercase form before).mapError .badRequest)
  check (cfg.validate.mapError .badRequest)
  saveChanges before cfg
  perform (Op.storeLimit cfg.bodyLimit)

/-- One tick of `spawn_refresher`. -/
def refresh : Fallible Op Op.Res AppError Unit := do
  let cfg ← orThrow (← perform .read) .database
  perform (Op.storeLimit cfg.bodyLimit)

/-- What is served at the same time. -/
inductive Request
  | update (form : Form)
  | refresh

def code (toLowercase : Text → Text) : Request → Prog Op Op.Res (Except AppError Unit)
  | .update form => (updateConfig toLowercase form).run
  | .refresh => refresh.run

/-- The rows of the settings, the rows `config.update` of the audit log, and the limit that is in force. -/
structure Instance where
  table : ConfigTable
  audits : List (List String)
  limit : ℕ

/-- The outcomes of an operation.  A commit may take place and its answer be lost. -/
inductive Exec (toLowercase : Text → Text) : Instance → (op : Op) → op.Res → Instance → Prop
  | read (s : Instance) : Exec toLowercase s .read (some (InstanceConfig.fromMap toLowercase s.table)) s
  | unread (s : Instance) : Exec toLowercase s .read none s
  | saved {s : Instance} {cfg : InstanceConfig} {table : ConfigTable} (told : Bool) :
      setInstanceConfig s.table cfg = some table → Exec toLowercase s (.save cfg) told { s with table := table }
  | unsaved (s : Instance) (cfg : InstanceConfig) : Exec toLowercase s (.save cfg) false s
  | audited (s : Instance) (changed : List String) (told : Bool) :
      Exec toLowercase s (.audit changed) told { s with audits := changed :: s.audits }
  | unaudited (s : Instance) (changed : List String) : Exec toLowercase s (.audit changed) false s
  | stored (s : Instance) (limit : ℕ) : Exec toLowercase s (.storeLimit limit) () { s with limit := limit }

/-- The answers of a database that works. -/
def answer (toLowercase : Text → Text) (s : Instance) : (op : Op) → op.Res × Instance
  | .read => (some (InstanceConfig.fromMap toLowercase s.table), s)
  | .save cfg =>
    match setInstanceConfig s.table cfg with
    | some table => (true, { s with table := table })
    | none => (false, s)
  | .audit changed => (true, { s with audits := changed :: s.audits })
  | .storeLimit limit => ((), { s with limit := limit })

/-- What the migrations insert: the default settings. -/
def seeded : Instance where
  table key := InstanceConfig.default.asPairs.lookup key
  audits := []
  limit := InstanceConfig.default.bodyLimit

/-! ## The page -/

/-- The value of a text field: it has no line breaks. -/
def oneLine (t : Text) : Text := t.filter fun c => c ≠ '\n' ∧ c ≠ '\r'

/-- A box is sent only if it is checked. -/
def checkbox (checked : Bool) : Option Text := if checked then some trueText else none

/-- The option that is selected; the first one if none is. -/
def selectedMode (mode : Text) : Text := if mode = modeInvite ∨ mode = modeClosed then mode else modeOpen

/-- The fields of the form in `templates/admin.html`. -/
def pageFields (cfg : InstanceConfig) : List (String × Option Text) :=
  [("instance_name", some (oneLine cfg.instanceName)), ("tagline", some (oneLine cfg.tagline)),
    ("icon_url", some (oneLine cfg.iconUrl)), ("max_file_bytes", some (i64Text cfg.maxFileBytes)),
    ("anonymous_max_bytes", some (i64Text cfg.anonymousMaxBytes)),
    ("max_paste_bytes", some (i64Text cfg.maxPasteBytes)), ("max_avatar_bytes", some (i64Text cfg.maxAvatarBytes)),
    ("min_expiry_secs", some (i64Text cfg.minExpirySecs)),
    ("default_expiry_secs", some (i64Text cfg.defaultExpirySecs)),
    ("max_expiry_secs", some (i64Text cfg.maxExpirySecs)),
    ("registration_mode", some (selectedMode cfg.registrationMode)),
    ("allow_anonymous", checkbox cfg.allowAnonymous), ("allow_local_login", checkbox cfg.allowLocalLogin),
    ("allow_oidc", checkbox cfg.allowOidc), ("scan_uploads", checkbox cfg.scanUploads),
    ("allow_anonymous_never_expiry", checkbox cfg.allowAnonymousNeverExpiry),
    ("allow_never_expiry", checkbox cfg.allowNeverExpiry)]

/-- What a browser sends for the page that was shown, if nothing is changed on it. -/
def pageForm (cfg : InstanceConfig) : Form := fun key => ((pageFields cfg).lookup key).join

/-- What becomes of settings when their page is saved. -/
def fromPage (cfg : InstanceConfig) : InstanceConfig :=
  { cfg with
    instanceName := oneLine cfg.instanceName
    tagline := oneLine cfg.tagline
    iconUrl := oneLine cfg.iconUrl
    blockEncryptedArchives := false }

/-! ## Texts -/

/-- There is no white space at either end. -/
def Trimmed (t : Text) : Prop := ∀ c, t.head? = some c ∨ t.getLast? = some c → isWhitespace c = false

theorem trimmed_trim (t : Text) : Trimmed (trim t) := fun _ hc => hc.elim head_trimmed getLast_trimmed

variable {t : Text}

theorem Trimmed.trim_eq (h : Trimmed t) : trim t = t := by
  unfold trim
  have hfirst : t.dropWhile isWhitespace = t := by
    cases t with
    | nil => rfl
    | cons c rest => rw [List.dropWhile_cons_of_neg (by simp [h c (.inl rfl)])]
  rw [hfirst, List.rdropWhile_eq_self_iff]
  intro hne
  simp [h _ (.inr (List.getLast?_eq_some_getLast hne))]

/-- What is no white space is kept on the line. -/
theorem ne_of_not_whitespace {c : Char} (h : isWhitespace c = false) : c ≠ '\n' ∧ c ≠ '\r' := by
  constructor
  · rintro rfl
    exact absurd h (by decide)
  · rintro rfl
    exact absurd h (by decide)

theorem oneLine_append (s t : Text) : oneLine (s ++ t) = oneLine s ++ oneLine t := List.filter_append ..

theorem oneLine_cons {c : Char} (h : isWhitespace c = false) (t : Text) : oneLine (c :: t) = c :: oneLine t :=
  List.filter_cons_of_pos (decide_eq_true (ne_of_not_whitespace h))

theorem Trimmed.oneLine (h : Trimmed t) : Trimmed (oneLine t) := by
  rintro c (hc | hc)
  · cases t with
    | nil => cases hc
    | cons a rest =>
      have ha := h a (.inl rfl)
      rw [oneLine_cons ha] at hc
      cases hc
      exact ha
  · rcases List.eq_nil_or_concat t with rfl | ⟨init, a, rfl⟩
    · cases hc
    · rw [List.concat_eq_append] at h hc
      have ha := h a (.inr List.getLast?_concat)
      rw [oneLine_append, oneLine_cons ha, show Config.oneLine [] = [] from rfl, List.getLast?_concat] at hc
      cases hc
      exact ha

theorem oneLine_ne_nil (h : Trimmed t) (hne : t ≠ []) : oneLine t ≠ [] := by
  obtain ⟨c, rest, rfl⟩ := List.exists_cons_of_ne_nil hne
  rw [oneLine_cons (h c (.inl rfl))]
  exact List.cons_ne_nil _ _

theorem utf8Len_oneLine_le (t : Text) : utf8Len (oneLine t) ≤ utf8Len t :=
  ((List.filter_sublist).map Char.utf8Size).sum_le_sum fun _ _ => Nat.zero_le _

/-- A beginning of one line stays. -/
theorem isPrefixOf_oneLine {first : Text} (hfirst : oneLine first = first) (h : first.isPrefixOf t = true) :
    first.isPrefixOf (oneLine t) = true := by
  obtain ⟨rest, rfl⟩ := List.isPrefixOf_iff_prefix.1 h
  rw [List.isPrefixOf_iff_prefix, oneLine_append, hfirst]
  exact List.prefix_append _ _

/-! ## The settings -/

variable {toLowercase : Text → Text} {cfg cfg' before : InstanceConfig}

theorem validate_eq_ok_iff : cfg.validate = .ok () ↔
    utf8Len cfg.tagline ≤ 140 ∧ utf8Len cfg.iconUrl ≤ 512 ∧
      (cfg.iconUrl.isEmpty || InstanceConfig.httpsScheme.isPrefixOf cfg.iconUrl ||
        ['/'].isPrefixOf cfg.iconUrl) = true ∧
      cfg.positives.find? (fun kv => kv.2 ≤ 0) = none ∧ cfg.anonymousMaxBytes ≤ cfg.maxFileBytes ∧
      cfg.minExpirySecs ≤ cfg.defaultExpirySecs ∧ cfg.defaultExpirySecs ≤ cfg.maxExpirySecs ∧
      (cfg.registrationMode = modeOpen ∨ cfg.registrationMode = modeInvite ∨ cfg.registrationMode = modeClosed) := by
  unfold InstanceConfig.validate
  cases hfind : cfg.positives.find? (fun kv => kv.2 ≤ 0) with
  | none => grind
  | some bad => grind

/-- The settings of the page are valid if those that were shown are. -/
theorem validate_fromPage (h : cfg.validate = .ok ()) : (fromPage cfg).validate = .ok () := by
  rw [validate_eq_ok_iff] at h ⊢
  obtain ⟨htagline, hicon, hurl, hrest⟩ := h
  refine ⟨(utf8Len_oneLine_le _).trans htagline, (utf8Len_oneLine_le _).trans hicon, ?_, hrest⟩
  simp only [Bool.or_eq_true] at hurl ⊢
  rcases hurl with (hempty | hhttps) | hpath
  · rw [List.isEmpty_iff] at hempty
    exact .inl (.inl (by simp [fromPage, hempty, oneLine]))
  · exact .inl (.inr (isPrefixOf_oneLine (by decide) hhttps))
  · exact .inr (isPrefixOf_oneLine (by decide) hpath)

/-- What every form keeps of the settings: the texts are trimmed, and the numbers fit. -/
structure Tidy (cfg : InstanceConfig) : Prop where
  name : Trimmed cfg.instanceName
  tagline : Trimmed cfg.tagline
  iconUrl : Trimmed cfg.iconUrl
  fits : Fits64 cfg

theorem parseI64_fits {s : Text} {n : ℤ} (h : parseI64 s = some n) : -2 ^ 63 ≤ n ∧ n < 2 ^ 63 := by
  unfold parseI64 at h
  split at h
  all_goals
    obtain ⟨m, -, hm⟩ := Option.bind_eq_some_iff.1 h
    split at hm
    · obtain rfl := Option.some.inj hm
      constructor <;> omega
    · cases hm

theorem tidy_takeText {form : Form} {slot : Slot Text} (hslot : slot ∈ textSlots) (h : Tidy cfg) :
    Tidy (takeText form cfg slot) := by
  unfold takeText
  split
  · rename_i value _
    have hvalue := trimmed_trim value
    simp only [textSlots, List.mem_cons, List.not_mem_nil, or_false] at hslot
    rcases hslot with rfl | rfl | rfl | rfl
    · exact { h with name := hvalue }
    · exact { h with tagline := hvalue }
    · exact { h with iconUrl := hvalue }
    · exact { h with }
  · exact h

theorem tidy_takeNumber {form : Form} {slot : Slot ℤ} (hslot : slot ∈ numberSlots) (h : Tidy cfg)
    (htake : takeNumber form cfg slot = .ok cfg') : Tidy cfg' := by
  unfold takeNumber at htake
  split at htake
  · split at htake
    · rename_i n hn
      cases htake
      have hn := parseI64_fits hn
      have hfits := h.fits
      simp only [numberSlots, List.mem_cons, List.not_mem_nil, or_false] at hslot
      simp only [Fits64, InstanceConfig.positives, List.forall_mem_cons] at hfits
      rcases hslot with rfl | rfl | rfl | rfl | rfl | rfl | rfl
      all_goals
        refine ⟨h.name, h.tagline, h.iconUrl, ?_⟩
        simp only [Fits64, InstanceConfig.positives, List.forall_mem_cons]
        tauto
    · cases htake
  · cases htake
    exact h

theorem tidy_takeFlag {form : Form} {slot : Slot Bool} (hslot : slot ∈ flagSlots) (h : Tidy cfg)
    (htake : takeFlag toLowercase form cfg slot = .ok cfg') : Tidy cfg' := by
  have hset : ∀ b, Tidy (slot.set cfg b) := by
    intro b
    simp only [flagSlots, List.mem_cons, List.not_mem_nil, or_false] at hslot
    rcases hslot with rfl | rfl | rfl | rfl | rfl | rfl | rfl
    all_goals exact { h with }
  unfold takeFlag at htake
  split at htake
  · split at htake
    · cases htake
      exact hset _
    · cases htake
  · cases htake
    exact hset _

/-- What every step of a loop keeps, the loop keeps. -/
theorem foldlM_keeps {α β : Type} {P : β → Prop} {f : β → α → Except String β} {l : List α} {b b' : β}
    (hstep : ∀ a ∈ l, ∀ b b', P b → f b a = .ok b' → P b') (hb : P b) (h : l.foldlM f b = .ok b') : P b' := by
  induction l generalizing b with
  | nil =>
    cases h
    exact hb
  | cons a l ih =>
    rw [List.foldlM_cons] at h
    cases hf : f b a with
    | error e =>
      rw [hf] at h
      cases h
    | ok c =>
      rw [hf] at h
      exact ih (fun a ha => hstep a (List.mem_cons_of_mem _ ha)) (hstep a List.mem_cons_self b c hb hf) h

theorem tidy_takeForm {form : Form} (h : Tidy cfg) (htake : takeForm toLowercase form cfg = .ok cfg') : Tidy cfg' := by
  have htexts : Tidy (textSlots.foldl (takeText form) cfg) :=
    List.foldlRecOn textSlots _ h fun _ hcfg _ hslot => tidy_takeText hslot hcfg
  unfold takeForm at htake
  cases hnumbers : numberSlots.foldlM (takeNumber form) (textSlots.foldl (takeText form) cfg) with
  | error e =>
    rw [hnumbers] at htake
    cases htake
  | ok numbers =>
    rw [hnumbers] at htake
    have hnumbers := foldlM_keeps (fun _ hslot _ _ => tidy_takeNumber hslot) htexts hnumbers
    exact foldlM_keeps (fun _ hslot _ _ => tidy_takeFlag hslot) hnumbers htake

theorem fits64_fromMap (table : ConfigTable) : Fits64 (InstanceConfig.fromMap toLowercase table) := by
  have hnumber : ∀ (key : String) {cur : ℤ}, -2 ^ 63 ≤ cur ∧ cur < 2 ^ 63 →
      -2 ^ 63 ≤ ((table key).bind parseI64).getD cur ∧ ((table key).bind parseI64).getD cur < 2 ^ 63 := by
    intro key cur hcur
    cases hn : (table key).bind parseI64 with
    | none => exact hcur
    | some n =>
      obtain ⟨s, -, hs⟩ := Option.bind_eq_some_iff.1 hn
      exact parseI64_fits hs
  simp only [Fits64, InstanceConfig.positives, List.forall_mem_cons, InstanceConfig.fromMap]
  refine ⟨?_, ?_, ?_, ?_, ?_, ?_, ?_, fun _ h => absurd h List.not_mem_nil⟩
  all_goals exact hnumber _ (by decide)

theorem i64Text_inj {m n : ℤ} (hm : -2 ^ 63 ≤ m ∧ m < 2 ^ 63) (hn : -2 ^ 63 ≤ n ∧ n < 2 ^ 63)
    (h : i64Text m = i64Text n) : m = n := by
  have hread := parseI64_i64Text hm.1 hm.2
  rw [h, parseI64_i64Text hn.1 hn.2] at hread
  exact (Option.some.inj hread).symm

theorem boolText_inj {b c : Bool} (h : boolText b = boolText c) : b = c := by
  cases b <;> cases c <;> first | rfl | exact absurd h (by decide)

/-- **Settings of which nothing has changed** are those of before. -/
theorem eq_of_changedKeys (h : changedKeys before cfg = []) (hbefore : Fits64 before) (hcfg : Fits64 cfg) :
    cfg = before := by
  have hpairs : ∀ pair ∈ cfg.asPairs, before.asPairs.lookup pair.1 = some pair.2 := by
    intro pair hpair
    have hnone := List.filterMap_eq_nil_iff.1 h pair hpair
    by_contra hne
    simp [hne] at hnone
  simp only [Fits64, InstanceConfig.positives, List.forall_mem_cons] at hbefore hcfg
  simp [InstanceConfig.asPairs, List.lookup_cons] at hpairs
  obtain ⟨h₁, h₂, h₃, h₄, h₅, h₆, h₇, h₈, h₉, h₁₀, h₁₁, h₁₂, h₁₃, h₁₄, h₁₅, h₁₆, h₁₇, h₁₈, h₁₉⟩ := hpairs
  obtain ⟨b₁, b₂, b₃, b₄, b₅, b₆, b₇, -⟩ := hbefore
  obtain ⟨c₁, c₂, c₃, c₄, c₅, c₆, c₇, -⟩ := hcfg
  cases before
  cases cfg
  simp only [InstanceConfig.mk.injEq]
  exact ⟨h₁.symm, h₂.symm, h₃.symm, i64Text_inj c₁ b₁ h₄.symm, i64Text_inj c₂ b₂ h₅.symm, i64Text_inj c₃ b₃ h₆.symm,
    i64Text_inj c₄ b₄ h₇.symm, i64Text_inj c₅ b₅ h₈.symm, i64Text_inj c₆ b₆ h₉.symm, boolText_inj h₁₀.symm,
    boolText_inj h₁₁.symm, boolText_inj h₁₂.symm, boolText_inj h₁₃.symm, i64Text_inj c₇ b₇ h₁₄.symm, h₁₅.symm,
    boolText_inj h₁₆.symm, boolText_inj h₁₇.symm, boolText_inj h₁₈.symm, boolText_inj h₁₉.symm⟩

theorem trimmed_i64Text (n : ℤ) : Trimmed (i64Text n) := by
  have hdigit : ∀ c : Char, c.isDigit = true → isWhitespace c = false := by
    intro c hc
    simp only [Char.isDigit, Bool.and_eq_true, decide_eq_true_eq, ge_iff_le, UInt32.le_iff_toNat_le] at hc
    obtain ⟨hlow, hhigh⟩ := hc
    have hlow : 48 ≤ c.toNat := hlow
    have hhigh : c.toNat ≤ 57 := hhigh
    simp [isWhitespace]
    omega
  have hnone : ∀ c ∈ i64Text n, isWhitespace c = false := by
    intro c hc
    cases n with
    | ofNat n => exact hdigit c (isDigit_toDigits n c hc)
    | negSucc n =>
      rcases List.mem_cons.1 hc with rfl | hc
      · decide
      · exact hdigit c (isDigit_toDigits _ c hc)
  exact fun c hc => hnone c (hc.elim List.mem_of_mem_head? List.mem_of_getLast?)

/-- **What the page sends** is taken for `fromPage`. -/
theorem takeForm_pageForm (hlower : ∀ t : Text, (∀ c ∈ t, 'a' ≤ c ∧ c ≤ 'z') → toLowercase t = t) (h : Tidy cfg)
    (hcfg : cfg.validate = .ok ()) : takeForm toLowercase (pageForm cfg) cfg = .ok (fromPage cfg) := by
  have hmode : trim (selectedMode cfg.registrationMode) = cfg.registrationMode := by
    rcases cfg.mode_of_validate hcfg with h | h | h <;> rw [h] <;> decide
  have hnumber : ∀ kv ∈ cfg.positives, parseI64 (trim (i64Text kv.2)) = some kv.2 := by
    intro kv hkv
    rw [(trimmed_i64Text _).trim_eq, parseI64_i64Text (h.fits kv hkv).1 (h.fits kv hkv).2]
  simp only [InstanceConfig.positives, List.forall_mem_cons] at hnumber
  obtain ⟨n₁, n₂, n₃, n₄, n₅, n₆, n₇, -⟩ := hnumber
  have hflag : parseFlag toLowercase trueText = some true := parseBool_boolText hlower true
  have hbox : ∀ (slot : Slot Bool) (c : InstanceConfig) (b : Bool), pageForm cfg slot.key = checkbox b →
      takeFlag toLowercase (pageForm cfg) c slot = .ok (slot.set c b) := by
    intro slot c b hkey
    unfold takeFlag
    rw [hkey]
    cases b with
    | false => rfl
    | true => simp [checkbox, hflag]
  have hbind : ∀ (c : InstanceConfig) (f : InstanceConfig → Except String InstanceConfig),
      (Except.ok c >>= f) = f c := fun _ _ => rfl
  have htexts : textSlots.foldl (takeText (pageForm cfg)) cfg =
      { fromPage cfg with blockEncryptedArchives := cfg.blockEncryptedArchives } := by
    simp [textSlots, takeText, pageForm, pageFields, List.lookup_cons, hmode, h.name.oneLine.trim_eq,
      h.tagline.oneLine.trim_eq, h.iconUrl.oneLine.trim_eq, fromPage]
  have hnumbers : numberSlots.foldlM (takeNumber (pageForm cfg))
      { fromPage cfg with blockEncryptedArchives := cfg.blockEncryptedArchives } =
      .ok { fromPage cfg with blockEncryptedArchives := cfg.blockEncryptedArchives } := by
    simp [numberSlots, takeNumber, pageForm, pageFields, List.lookup_cons, n₁, n₂, n₃, n₄, n₅, n₆, n₇, hbind, fromPage]
    rfl
  unfold takeForm
  rw [htexts, hnumbers, hbind]
  simp only [flagSlots, List.foldlM_cons, List.foldlM_nil]
  -- the box that is missing on the page is one that is not checked
  rw [hbox _ _ cfg.allowAnonymous rfl, hbind, hbox _ _ cfg.allowLocalLogin rfl, hbind,
    hbox _ _ cfg.allowOidc rfl, hbind, hbox _ _ cfg.scanUploads rfl, hbind, hbox _ _ false rfl, hbind,
    hbox _ _ cfg.allowAnonymousNeverExpiry rfl, hbind, hbox _ _ cfg.allowNeverExpiry rfl, hbind]
  rfl

/-! ## Runs -/

/-- What holds of the settings in every run. -/
structure Sound (toLowercase : Text → Text) (s : Instance) : Prop where
  clean : ∀ key value, s.table key = some value → '\x00' ∉ value
  valid : (InstanceConfig.fromMap toLowercase s.table).validate = .ok ()
  tidy : Tidy (InstanceConfig.fromMap toLowercase s.table)
  audits : [] ∉ s.audits
  limit : ∃ cfg : InstanceConfig, cfg.validate = .ok () ∧ s.limit = cfg.bodyLimit

/-- What the requests perform. -/
def May : Op → Prop
  | .read => True
  | .save cfg => cfg.validate = .ok () ∧ Tidy cfg
  | .audit changed => changed ≠ []
  | .storeLimit limit => ∃ cfg : InstanceConfig, cfg.validate = .ok () ∧ limit = cfg.bodyLimit

/-- What they rely on. -/
def Told : (op : Op) → op.Res → Prop
  | .read, some cfg => cfg.validate = .ok () ∧ Tidy cfg
  | _, _ => True

variable {s s' : Instance} {table table' : ConfigTable}

/-- A column has no place for U+0000. -/
theorem clean_of_upsert {pairs : List (String × Text)} (h : pairs.foldlM upsert table = some table')
    (hclean : ∀ key value, table key = some value → '\x00' ∉ value) :
    ∀ key value, table' key = some value → '\x00' ∉ value := by
  induction pairs generalizing table with
  | nil =>
    cases h
    exact hclean
  | cons pair pairs ih =>
    rw [List.foldlM_cons, upsert] at h
    by_cases hzero : '\x00' ∈ pair.2
    · simp [hzero] at h
    · rw [if_neg hzero] at h
      refine ih h fun key value hvalue => ?_
      by_cases hkey : key = pair.1
      · subst hkey
        rw [Function.update_self] at hvalue
        cases hvalue
        exact hzero
      · rw [Function.update_of_ne hkey] at hvalue
        exact hclean key value hvalue

/-- **Every operation of a request keeps the settings sound.** -/
theorem Sound.step (hlower : ∀ t : Text, (∀ c ∈ t, 'a' ≤ c ∧ c ≤ 'z') → toLowercase t = t) {op : Op} {r : op.Res}
    (hs : Sound toLowercase s) (hmay : May op) (hexec : Exec toLowercase s op r s') :
    Told op r ∧ Sound toLowercase s' := by
  cases hexec with
  | read => exact ⟨⟨hs.valid, hs.tidy⟩, hs⟩
  | unread => exact ⟨trivial, hs⟩
  | @saved cfg table told hsave =>
    obtain ⟨hcfg, htidy⟩ := hmay
    have hread := fromMap_of_save hlower hcfg htidy.fits hsave
    refine ⟨trivial, clean_of_upsert hsave hs.clean, ?_, ?_, hs.audits, hs.limit⟩
    · rw [hread]
      exact hcfg
    · rw [hread]
      refine { htidy with name := ?_ }
      dsimp only
      split
      · exact htidy.name
      · rw [show InstanceConfig.default.instanceName = trim InstanceConfig.default.instanceName by decide]
        exact trimmed_trim _
  | unsaved => exact ⟨trivial, hs⟩
  | audited => exact ⟨trivial, { hs with audits := by simp [hs.audits, Ne.symm hmay] }⟩
  | unaudited => exact ⟨trivial, hs⟩
  | stored => exact ⟨trivial, { hs with limit := hmay }⟩

theorem obeys_saveChanges (hcfg : cfg.validate = .ok ()) (h : Tidy cfg) :
    (saveChanges before cfg).Obeys (.flat May Told) (fun _ _ => True) (fun _ _ => True) () := by
  unfold saveChanges
  split
  · trivial
  · rename_i hchanged
    simp only [List.isEmpty_iff] at hchanged
    simp only [obeys_bind, obeys_perform, obeys_reject]
    refine ⟨⟨hcfg, h⟩, fun saved _ _ => ⟨fun _ => trivial, fun _ => ⟨hchanged, fun audited _ _ => ?_⟩⟩⟩
    exact ⟨fun _ => trivial, fun _ => trivial⟩

/-- **A request relies on the settings that it has read**, and performs what keeps them sound. -/
theorem obeys_updateConfig (form : Form) :
    (updateConfig toLowercase form).Obeys (.flat May Told) (fun _ _ => True) (fun _ _ => True) () := by
  unfold updateConfig
  simp only [obeys_bind, obeys_perform, obeys_orThrow, obeys_check]
  refine ⟨trivial, fun r _ htold => ⟨fun _ => trivial, fun before hr => ?_⟩⟩
  subst hr
  obtain ⟨-, hbefore⟩ := htold
  refine ⟨fun _ _ => trivial, fun cfg htake => ⟨fun _ _ => trivial, fun _ hvalid => ?_⟩⟩
  have htake : takeForm toLowercase form before = .ok cfg := by
    cases hform : takeForm toLowercase form before with
    | error e => simp [hform, Except.mapError] at htake
    | ok cfg' => simpa [hform, Except.mapError] using htake
  have hcfg : cfg.validate = .ok () := by
    cases hok : cfg.validate with
    | error e => simp [hok, Except.mapError] at hvalid
    | ok u => rfl
  refine (obeys_saveChanges hcfg (tidy_takeForm hbefore htake)).mono (fun _ _ _ => ?_) fun _ _ _ => trivial
  exact ⟨⟨cfg, hcfg, rfl⟩, fun _ _ _ => trivial⟩

theorem obeys_code (request : Request) :
    (code toLowercase request).Obeys (.flat May Told) (fun _ _ => True) () := by
  cases request with
  | update form =>
    refine Prog.Obeys.mono (obeys_updateConfig form) fun r _ _ => trivial
  | refresh =>
    have hrefresh : refresh.Obeys (.flat May Told) (fun _ _ => True) (fun _ _ => True) () := by
      unfold refresh
      simp only [obeys_bind, obeys_perform, obeys_orThrow]
      refine ⟨trivial, fun r _ htold => ⟨fun _ => trivial, fun cfg hr => ?_⟩⟩
      subst hr
      exact ⟨⟨cfg, htold.1, rfl⟩, fun _ _ _ => trivial⟩
    exact Prog.Obeys.mono hrefresh fun r _ _ => trivial

theorem seeded_rows : ∀ pair ∈ InstanceConfig.default.asPairs, seeded.table pair.1 = some pair.2 := by
  simp [seeded, InstanceConfig.asPairs, List.lookup_cons]

theorem sound_seeded (hlower : ∀ t : Text, (∀ c ∈ t, 'a' ≤ c ∧ c ≤ 'z') → toLowercase t = t) :
    Sound toLowercase seeded := by
  have hread : InstanceConfig.fromMap toLowercase seeded.table = InstanceConfig.default :=
    fromMap_of_asPairs hlower (fits64_named _) (by decide) seeded_rows
  have htrimmed : ∀ t : Text, trim t = t → Trimmed t := fun t ht => ht ▸ trimmed_trim t
  refine ⟨fun key value hvalue hzero => ?_, ?_, ?_, List.not_mem_nil, _, InstanceConfig.validate_default, rfl⟩
  · obtain ⟨before, after, hpairs, -⟩ := List.lookup_eq_some_iff.1 hvalue
    have hpair : (key, value) ∈ InstanceConfig.default.asPairs := hpairs ▸ List.mem_append_cons_self
    have hfree := (exists_zero_iff InstanceConfig.validate_default).1 ⟨_, hpair, hzero⟩
    simp [InstanceConfig.default] at hfree
  · rw [hread]
    exact InstanceConfig.validate_default
  · rw [hread]
    exact ⟨htrimmed _ (by decide), htrimmed _ (by decide), htrimmed _ (by decide), fits64_named _⟩

/-- **The settings stay valid.**  Any number of forms are saved and any number of ticks of the refresher pass, at the
same time; statements fail, answers are lost, and requests are dropped.  The settings that are read pass the validation,
their texts are trimmed and their numbers fit; no row of the audit log is about nothing, and the limit on request bodies
is that of settings that pass the validation. -/
theorem settings_stay_sound (hlower : ∀ t : Text, (∀ c ∈ t, 'a' ≤ c ∧ c ≤ 'z') → toLowercase t = t)
    {p : Pool Instance Request Op Op.Res (Except AppError Unit)}
    (hp : Pool.Reachable (code toLowercase) (Exec toLowercase) True seeded p) : Sound toLowercase p.shared :=
  (Pool.Reachable.invariant (sound_seeded hlower) obeys_code (fun _ _ _ _ _ hmay hs => hs.step hlower hmay) hp).1

/-- The form of a client that knows the flag: all else is as the page has it. -/
def blockForm : Form := fun key =>
  if key = "block_encrypted_archives" then some trueText else pageForm InstanceConfig.default key

theorem exec_answer (s : Instance) (op : Op) :
    Exec toLowercase s op (answer toLowercase s op).1 (answer toLowercase s op).2 := by
  cases op with
  | read => exact .read s
  | save cfg =>
    unfold answer
    dsimp only
    split
    · rename_i hsave
      exact .saved true hsave
    · exact .unsaved s cfg
  | audit changed => exact .audited s changed true
  | storeLimit limit => exact .stored s limit

/-- Such a form is saved, to the end. -/
def blockingPool : Pool Instance Request Op Op.Res (Except AppError Unit) :=
  Pool.play (code asciiLowercase) (fun _ : Unit => answer asciiLowercase) seeded
    [.spawn (.update blockForm), .act 0 (), .act 0 (), .act 0 (), .act 0 ()]

theorem reachable_blockingPool :
    Pool.Reachable (code asciiLowercase) (Exec asciiLowercase) True seeded blockingPool :=
  @Pool.reachable_play _ _ _ _ _ (code asciiLowercase) _ True Unit (fun _ => answer asciiLowercase) (fun _ _ => true)
    (fun _ s op _ => exec_answer s op) seeded _ (by rfl)

theorem settings_stay_sound_blocking : Sound asciiLowercase blockingPool.shared :=
  settings_stay_sound asciiLowercase_letters reachable_blockingPool

/-! ## Refusals -/

/-- A loop that stops with an error stops at one of its steps. -/
theorem exists_of_foldlM_error {α β : Type} {f : β → α → Except String β} {l : List α} {b : β} {e : String}
    (h : l.foldlM f b = .error e) : ∃ a ∈ l, ∃ b, f b a = .error e := by
  induction l generalizing b with
  | nil => cases h
  | cons a l ih =>
    rw [List.foldlM_cons] at h
    cases hf : f b a with
    | error e' =>
      rw [hf] at h
      cases h
      exact ⟨a, List.mem_cons_self, b, hf⟩
    | ok c =>
      rw [hf] at h
      obtain ⟨a', ha', hfails⟩ := ih h
      exact ⟨a', List.mem_cons_of_mem _ ha', hfails⟩

/-- **A form is refused for a field that cannot be read**, and the message names it. -/
theorem takeForm_error {form : Form} {message : String} (h : takeForm toLowercase form cfg = .error message) :
    (∃ slot ∈ numberSlots, ∃ value, form slot.key = some value ∧ parseI64 (trim value) = none ∧
      message = s!"{slot.key} must be a number") ∨
    ∃ slot ∈ flagSlots, ∃ value, form slot.key = some value ∧ parseFlag toLowercase value = none ∧
      message = s!"{slot.key} must be true|false" := by
  unfold takeForm at h
  cases hnumbers : numberSlots.foldlM (takeNumber form) (textSlots.foldl (takeText form) cfg) with
  | error e =>
    rw [hnumbers] at h
    cases h
    obtain ⟨slot, hslot, cfg, hfails⟩ := exists_of_foldlM_error hnumbers
    unfold takeNumber at hfails
    split at hfails
    · rename_i value hvalue
      split at hfails
      · cases hfails
      · rename_i hnone
        cases hfails
        exact .inl ⟨slot, hslot, value, hvalue, hnone, rfl⟩
    · cases hfails
  | ok numbers =>
    rw [hnumbers] at h
    obtain ⟨slot, hslot, cfg, hfails⟩ := exists_of_foldlM_error h
    unfold takeFlag at hfails
    split at hfails
    · rename_i value hvalue
      split at hfails
      · cases hfails
      · rename_i hnone
        cases hfails
        exact .inr ⟨slot, hslot, value, hvalue, hnone, rfl⟩
    · cases hfails

/-- What a single operation comes to. -/
theorem eval_perform (op : Op) : eval (answer toLowercase) (perform op : Fallible Op Op.Res AppError _) s =
    (.ok (answer toLowercase s op).1, (answer toLowercase s op).2) := rfl

/-- The writing part refuses nothing. -/
theorem eval_saveChanges_ne {message : String} :
    (eval (answer toLowercase) (saveChanges before cfg) s).1 ≠ .error (.badRequest message) := by
  unfold saveChanges
  split
  · simp
  · rw [eval_bind_of_ok (eval_perform _), eval_bind, eval_reject]
    split
    · simp
    · simp only [andThen_ok]
      rw [eval_bind_of_ok (eval_perform _), eval_reject]
      split <;> simp

/-- **A form that is refused leaves everything as it was.** -/
theorem eval_updateConfig_refused {form : Form} {message : String}
    (h : eval (answer toLowercase) (updateConfig toLowercase form) s = (.error (.badRequest message), s')) :
    s' = s := by
  have hread : eval (answer toLowercase) (perform .read : Fallible Op Op.Res AppError _) s =
      (.ok (some (InstanceConfig.fromMap toLowercase s.table)), s) := eval_perform .read
  unfold updateConfig at h
  rw [eval_bind_of_ok hread] at h
  simp only [eval_bind, eval_orThrow, Option.elim_some, andThen_ok, eval_check] at h
  cases htake : takeForm toLowercase form (InstanceConfig.fromMap toLowercase s.table) with
  | error e =>
    simp only [htake, Except.mapError, andThen_error, Prod.mk.injEq] at h
    exact h.2.symm
  | ok cfg =>
    simp only [htake, Except.mapError, andThen_ok, eval_bind, eval_check] at h
    cases hvalid : cfg.validate with
    | error e =>
      simp only [hvalid, andThen_error, Prod.mk.injEq] at h
      exact h.2.symm
    | ok u =>
      simp only [hvalid, andThen_ok, eval_bind] at h
      have hne := @eval_saveChanges_ne toLowercase cfg (InstanceConfig.fromMap toLowercase s.table) s message
      cases hsave : eval (answer toLowercase) (saveChanges (InstanceConfig.fromMap toLowercase s.table) cfg) s with
      | mk r t =>
        cases r with
        | error e =>
          rw [hsave] at h hne
          cases h
          exact absurd rfl hne
        | ok u =>
          rw [hsave] at h
          cases h

/-! ## The page is saved -/

theorem changedKeys_self (cfg : InstanceConfig) : changedKeys cfg cfg = [] := by
  simp [changedKeys, InstanceConfig.asPairs, List.lookup_cons]

/-- What the writing part comes to, where the rows can be written. -/
theorem eval_saveChanges (hsave : setInstanceConfig s.table cfg = some table) :
    eval (answer toLowercase) (saveChanges before cfg) s = (.ok (), if (changedKeys before cfg).isEmpty then s
      else { s with table := table, audits := changedKeys before cfg :: s.audits }) := by
  unfold saveChanges
  split
  · rfl
  · have hsaved : eval (answer toLowercase) (perform (Op.save cfg) : Fallible Op Op.Res AppError Bool) s =
        (.ok true, { s with table := table }) := by
      rw [eval_perform]
      simp [answer, hsave]
    rw [eval_bind_of_ok hsaved]
    rfl

/-- What the page comes to when it is saved as it was shown. -/
theorem eval_pageForm (hlower : ∀ t : Text, (∀ c ∈ t, 'a' ≤ c ∧ c ≤ 'z') → toLowercase t = t)
    (hcfg : InstanceConfig.fromMap toLowercase s.table = cfg) (hs : Sound toLowercase s)
    (hsave : setInstanceConfig s.table (fromPage cfg) = some table) :
    eval (answer toLowercase) (updateConfig toLowercase (pageForm cfg)) s =
      (.ok (), if (changedKeys cfg (fromPage cfg)).isEmpty then { s with limit := (fromPage cfg).bodyLimit }
        else ⟨table, changedKeys cfg (fromPage cfg) :: s.audits, (fromPage cfg).bodyLimit⟩) := by
  subst hcfg
  have htake := takeForm_pageForm hlower hs.tidy hs.valid
  have hvalid := validate_fromPage hs.valid
  have hread : eval (answer toLowercase) (perform .read : Fallible Op Op.Res AppError _) s =
      (.ok (some (InstanceConfig.fromMap toLowercase s.table)), s) := eval_perform .read
  unfold updateConfig
  rw [eval_bind_of_ok hread]
  simp only [eval_bind, eval_orThrow, Option.elim_some, andThen_ok, eval_check, htake, hvalid, Except.mapError,
    eval_saveChanges hsave]
  split <;> rfl

theorem instanceName_ne_nil (table : ConfigTable) : (InstanceConfig.fromMap toLowercase table).instanceName ≠ [] := by
  simp only [InstanceConfig.fromMap]
  split
  · rename_i hname
    simpa using hname
  · decide

/-- The texts of sound settings can be written to their column. -/
theorem Sound.free (hs : Sound toLowercase s) : '\x00' ∉ (InstanceConfig.fromMap toLowercase s.table).instanceName ∧
    '\x00' ∉ (InstanceConfig.fromMap toLowercase s.table).tagline ∧
    '\x00' ∉ (InstanceConfig.fromMap toLowercase s.table).iconUrl := by
  have hrow : ∀ (key : String) (t : Text), '\x00' ∉ t → '\x00' ∉ (s.table key).getD t := by
    intro key t ht
    cases hvalue : s.table key with
    | none => exact ht
    | some value => exact hs.clean key value hvalue
  refine ⟨?_, hrow _ _ List.not_mem_nil, hrow _ _ List.not_mem_nil⟩
  simp only [InstanceConfig.fromMap]
  split
  · exact hrow _ _ List.not_mem_nil
  · decide

/-- The page of sound settings can be saved, and is read back. -/
theorem Sound.save_fromPage (hlower : ∀ t : Text, (∀ c ∈ t, 'a' ≤ c ∧ c ≤ 'z') → toLowercase t = t)
    (hs : Sound toLowercase s) (hcfg : InstanceConfig.fromMap toLowercase s.table = cfg) :
    ∃ table, setInstanceConfig s.table (fromPage cfg) = some table ∧
      InstanceConfig.fromMap toLowercase table = fromPage cfg := by
  subst hcfg
  have hvalid := validate_fromPage hs.valid
  cases hsave : setInstanceConfig s.table (fromPage (InstanceConfig.fromMap toLowercase s.table)) with
  | none =>
    obtain ⟨hname, htagline, hicon⟩ := hs.free
    rcases (exists_zero_iff hvalid).1 (foldlM_upsert_eq_none.1 hsave) with hzero | hzero | hzero
    · exact absurd (List.mem_of_mem_filter hzero) hname
    · exact absurd (List.mem_of_mem_filter hzero) htagline
    · exact absurd (List.mem_of_mem_filter hzero) hicon
  | some table =>
    refine ⟨table, rfl, ?_⟩
    rw [fromMap_of_save hlower hvalid hs.tidy.fits hsave]
    have hname := oneLine_ne_nil hs.tidy.name (instanceName_ne_nil s.table)
    rw [if_pos (by simpa [fromPage] using hname)]

/-- **The page is not saved as it was shown.**  In every state that is reached, an administrator who sends the page of
the settings back as a browser shows it gets an answer that all is well; but its form has no box for
`block_encrypted_archives`, and what is not in the form is off.  The other settings stay, except that a text loses its
line breaks.  So nothing changes, and nothing is written to the audit log, exactly if the flag was off and each text
is one line. -/
theorem page_turns_off (hlower : ∀ t : Text, (∀ c ∈ t, 'a' ≤ c ∧ c ≤ 'z') → toLowercase t = t)
    {p : Pool Instance Request Op Op.Res (Except AppError Unit)}
    (hp : Pool.Reachable (code toLowercase) (Exec toLowercase) True seeded p)
    (hcfg : InstanceConfig.fromMap toLowercase p.shared.table = cfg) :
    ∃ s', eval (answer toLowercase) (updateConfig toLowercase (pageForm cfg)) p.shared = (.ok (), s') ∧
      InstanceConfig.fromMap toLowercase s'.table = fromPage cfg ∧ s'.limit = (fromPage cfg).bodyLimit ∧
      (s'.audits = p.shared.audits ↔ fromPage cfg = cfg) ∧
      (fromPage cfg = cfg ↔ cfg.blockEncryptedArchives = false ∧
        ∀ t ∈ [cfg.instanceName, cfg.tagline, cfg.iconUrl], '\n' ∉ t ∧ '\r' ∉ t) := by
  have hs := settings_stay_sound hlower hp
  obtain ⟨table, hsave, hread⟩ := hs.save_fromPage hlower hcfg
  refine ⟨_, eval_pageForm hlower hcfg hs hsave, ?_⟩
  have hsame : fromPage cfg = cfg ↔ cfg.blockEncryptedArchives = false ∧
      ∀ t ∈ [cfg.instanceName, cfg.tagline, cfg.iconUrl], '\n' ∉ t ∧ '\r' ∉ t := by
    have hline : ∀ t : Text, oneLine t = t ↔ '\n' ∉ t ∧ '\r' ∉ t := by
      intro t
      unfold oneLine
      rw [List.filter_eq_self]
      constructor
      · intro h
        exact ⟨fun hmem => by simpa using h _ hmem, fun hmem => by simpa using h _ hmem⟩
      · rintro ⟨hn, hr⟩ c hc
        exact decide_eq_true ⟨fun heq => hn (heq ▸ hc), fun heq => hr (heq ▸ hc)⟩
    simp only [List.forall_mem_cons, ← hline]
    cases cfg
    simp [fromPage]
    tauto
  by_cases hchanged : changedKeys cfg (fromPage cfg) = []
  · have htidy : Fits64 cfg := hcfg ▸ fits64_fromMap _
    have heq := eq_of_changedKeys hchanged htidy htidy
    rw [hchanged, if_pos List.isEmpty_nil]
    exact ⟨by rw [heq, ← hcfg], rfl, iff_of_true rfl heq, hsame⟩
  · rw [if_neg (by simpa using hchanged)]
    refine ⟨hread, rfl, iff_of_false (fun h => ?_) (fun h => ?_), hsame⟩
    · have hlength := congrArg List.length h
      simp at hlength
    · rw [h] at hchanged
      exact hchanged (changedKeys_self cfg)

/-- The flag is on. -/
theorem blocking_on : InstanceConfig.fromMap asciiLowercase blockingPool.shared.table =
    { InstanceConfig.default with blockEncryptedArchives := true } := by
  decide +kernel

/-- **The page turns it off**, with all else as it was. -/
theorem page_turns_off_blocking : ∃ s', eval (answer asciiLowercase) (updateConfig asciiLowercase
    (pageForm { InstanceConfig.default with blockEncryptedArchives := true })) blockingPool.shared = (.ok (), s') ∧
      InstanceConfig.fromMap asciiLowercase s'.table = InstanceConfig.default := by
  obtain ⟨s', heval, hread, -⟩ := page_turns_off asciiLowercase_letters reachable_blockingPool blocking_on
  exact ⟨s', heval, hread.trans (by decide)⟩

end Config
end Server
end Uwuubox
