import Uwuubox.Server.Limits

/-!
# Words: headers, names and form fields

The functions that take a request apart before anything is looked up: `strip_to_core` and
`is_reserved` of `src/ids.rs`, `sanitize_filename` of `src/mime.rs`, `range::parse`, the
bearer token of `src/identity.rs` and the form fields of `src/routes/`.

* `trim`, `toStr` — `str::trim` and `HeaderValue::to_str`.
* `sanitizeFilename` — `none` where `String::truncate` panics.
* `Range.parse` — what a `Range` header asks for.
* `Scope`, `Visibility` — the words that columns hold, with their names.
-/

namespace Uwuubox
namespace Server

open Dedupe

/-- `char::is_whitespace`. -/
def isWhitespace (c : Char) : Bool :=
  (9 ≤ c.toNat && c.toNat ≤ 13) || c.toNat == 32 || c.toNat == 0x85 || c.toNat == 0xA0 ||
  c.toNat == 0x1680 || (0x2000 ≤ c.toNat && c.toNat ≤ 0x200A) || c.toNat == 0x2028 ||
  c.toNat == 0x2029 || c.toNat == 0x202F || c.toNat == 0x205F || c.toNat == 0x3000

/-- `str::trim`. -/
def trim (t : Text) : Text := (t.dropWhile isWhitespace).rdropWhile isWhitespace

/-- `str::strip_prefix`. -/
def stripPrefix : Text → Text → Option Text
  | [], t => some t
  | _ :: _, [] => none
  | p :: ps, c :: cs => if p = c then stripPrefix ps cs else none

/-- The bytes of a string. -/
def utf8 (t : Text) : Bytes := t.flatMap String.utf8EncodeChar

/-- `HeaderValue::to_str`: visible ASCII and tabs only. -/
def toStr (value : Bytes) : Option Text :=
  if value.all fun b => (32 ≤ b && b < 127) || b == 9 then some (value.map fun b => Char.ofNat b.toNat)
  else none

/-! ## Cores -/

/-- `strip_to_core`: cores never contain a dot. -/
def stripToCore (segment : Text) : Text := segment.takeWhile (· ≠ '.')

/-- `RESERVED`. -/
def reserved : List Text :=
  [['f'], ['p'], ['u'], ['a', 'p', 'i'], ['a', 'd', 'm', 'i', 'n'], ['l', 'o', 'g', 'i', 'n'],
    ['r', 'e', 'g', 'i', 's', 't', 'e', 'r'], ['l', 'o', 'g', 'o', 'u', 't'], ['o', 'i', 'd', 'c'],
    ['s', 't', 'a', 't', 'i', 'c'], ['h', 'e', 'a', 'l', 't', 'h'], ['c', 'o', 'n', 'f', 'i', 'g']]

/-- `is_reserved`. -/
def isReserved (word : Text) : Bool := word ∈ reserved

/-! ## File names -/

/-- `char::is_control`. -/
def isControl (c : Char) : Bool := c.toNat < 32 || (127 ≤ c.toNat && c.toNat < 160)

/-- `String::truncate`, which panics inside a character. -/
def truncate : Text → ℕ → Option Text
  | [], _ => some []
  | c :: cs, n =>
    if n = 0 then some []
    else if c.utf8Size ≤ n then (truncate cs (n - c.utf8Size)).map (c :: ·)
    else none

/-- `download`. -/
def downloadName : Text := ['d', 'o', 'w', 'n', 'l', 'o', 'a', 'd']

/-- `sanitize_filename`; `none` is a panic. -/
def sanitizeFilename (name : Text) : Option Text :=
  let base := name.rtakeWhile fun c => c ≠ '/' && c ≠ '\\'
  let out := (base.filter fun c => !isControl c).map fun c =>
    if c = '"' || c = '\'' || c = '\\' || c = ';' then '_' else c
  let out := out.dropWhile (· = '.')
  let out := if out.isEmpty then downloadName else out
  if utf8Len out > 128 then truncate out 128 else some out

/-! ## Ranges -/

/-- `RangeOutcome`. -/
inductive RangeOutcome where
  | full
  | satisfiable (start stop : ℕ)
  | invalid
  | unsatisfiable
deriving DecidableEq

/-- A decimal number that fits 64 bits. -/
def decimal (value : Text) : Option ℕ :=
  if !value.isEmpty && value.all Char.isDigit then
    let n := value.foldl (fun n c => 10 * n + (c.toNat - '0'.toNat)) 0
    if n < 2 ^ 64 then some n else none
  else none

/-- `bytes=`. -/
def bytesUnit : Text := ['b', 'y', 't', 'e', 's', '=']

/-- `range::parse`. -/
def Range.parse (header : Option Text) (len : ℕ) : RangeOutcome :=
  match header with
  | none => .full
  | some header =>
    match stripPrefix bytesUnit (trim header) with
    | none => .invalid
    | some spec =>
      if spec.isEmpty || spec.contains ',' || spec.any isWhitespace then .invalid
      else match spec.span (· ≠ '-') with
        | (_, []) => .invalid
        | ([], _ :: last) =>
          match decimal last with
          | none => .invalid
          | some suffixLen =>
            if suffixLen = 0 || len = 0 then .unsatisfiable
            else .satisfiable (len - suffixLen) (len - 1)
        | (first, _ :: last) =>
          match decimal first with
          | none => .invalid
          | some start =>
            if last.isEmpty then
              if len = 0 || start ≥ len then .unsatisfiable else .satisfiable start (len - 1)
            else match decimal last with
              | none => .invalid
              | some stop =>
                if stop < start then .invalid
                else if len = 0 || start ≥ len then .unsatisfiable
                else .satisfiable start (min stop (len - 1))

/-! ## The words of columns -/

/-- The scopes of an API token, in the order of `API_SCOPES`. -/
inductive Scope where
  | upload
  | paste
  | delete
  | read
deriving DecidableEq

/-- `API_SCOPES`. -/
def apiScopes : List Scope := [.upload, .paste, .delete, .read]

def Scope.name : Scope → Text
  | .upload => ['u', 'p', 'l', 'o', 'a', 'd']
  | .paste => ['p', 'a', 's', 't', 'e']
  | .delete => ['d', 'e', 'l', 'e', 't', 'e']
  | .read => ['r', 'e', 'a', 'd']

/-- `CHECK (visibility IN ('unlisted', 'public'))`. -/
inductive Visibility where
  | unlisted
  | published
deriving DecidableEq

/-- `public`. -/
def publicWord : Text := ['p', 'u', 'b', 'l', 'i', 'c']

/-- `unlisted`. -/
def unlistedWord : Text := ['u', 'n', 'l', 'i', 's', 't', 'e', 'd']

def Visibility.name : Visibility → Text
  | .unlisted => unlistedWord
  | .published => publicWord

/-- `matches!(visibility, "public" | "unlisted")`. -/
def Visibility.parse (word : Text) : Option Visibility :=
  if word = publicWord then some .published
  else if word = unlistedWord then some .unlisted
  else none

@[simp] theorem Visibility.parse_name (v : Visibility) : parse v.name = some v := by
  cases v <;> rfl

/-! ## Tokens -/

/-- `Bearer `. -/
def bearerWord : Text := ['B', 'e', 'a', 'r', 'e', 'r', ' ']

/-- `bearer`: the token of an `Authorization` header. -/
def bearer (authorization : Option Bytes) : Option Text :=
  ((authorization.bind toStr).bind (stripPrefix bearerWord)).map trim

/-- `uwu_`. -/
def tokenPrefix : Text := ['u', 'w', 'u', '_']

/-- `is_api_token_format`. -/
def isApiTokenFormat (token : Text) : Bool :=
  utf8Len token = 36 && tokenPrefix.isPrefixOf token && (token.drop 4).all Char.isAlphanum

/-! ## Form fields -/

/-- `parse_bool_field` and `form_bool`: the words for yes and no; `none` is neither. -/
def boolWord (word : Text) : Option Bool :=
  if word = ['1'] || word = ['t', 'r', 'u', 'e'] || word = ['y', 'e', 's'] || word = ['o', 'n'] then
    some true
  else if word = ['0'] || word = ['f', 'a', 'l', 's', 'e'] || word = ['n', 'o'] ||
      word = ['o', 'f', 'f'] then
    some false
  else none

/-- `never`. -/
def neverWord : Text := ['n', 'e', 'v', 'e', 'r']

/-- `str::parse::<i64>`. -/
def parseI64 (word : Text) : Option ℤ :=
  match word with
  | '-' :: digits => (digitsOf digits).bind fun n => if n ≤ 2 ^ 63 then some (-(n : ℤ)) else none
  | '+' :: digits => (digitsOf digits).bind fun n => if n < 2 ^ 63 then some (n : ℤ) else none
  | digits => (digitsOf digits).bind fun n => if n < 2 ^ 63 then some (n : ℤ) else none
where
  /-- A number of any size. -/
  digitsOf (digits : Text) : Option ℕ :=
    if !digits.isEmpty && digits.all Char.isDigit then
      some (digits.foldl (fun n c => 10 * n + (c.toNat - '0'.toNat)) 0)
    else none

/-- `parse_expiry_param`; an error is a 400. -/
def parseExpiryParam : Option Text → Except Unit ExpiryRequest
  | none => .ok .default
  | some raw =>
    let word := trim raw
    if word.isEmpty then .ok .default
    else if word.map Char.toLower = neverWord || word = ['0'] then .ok .never
    else match parseI64 word with
      | some secs => .ok (.inSecs secs)
      | none => .error ()

/-! ## Digits -/

theorem isDigit_toDigits (n : ℕ) : ∀ c ∈ Nat.toDigits 10 n, c.isDigit = true :=
  fun _ hc => Nat.isDigit_of_mem_toDigits (by decide) (by decide) hc

/-- Where the digits are. -/
theorem toNat_of_isDigit {c : Char} (h : c.isDigit = true) : 48 ≤ c.toNat ∧ c.toNat ≤ 57 := by
  simp only [Char.isDigit, Bool.and_eq_true, decide_eq_true_eq] at h
  exact h

end Server
end Uwuubox
