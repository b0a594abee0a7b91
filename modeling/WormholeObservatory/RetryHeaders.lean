import WormholeObservatory.Floats
import WormholeObservatory.VersionOrder

/-! The delay the headers of a response ask for. Numbers are exact. -/
namespace WormholeObservatory
namespace Retry

open Floats
open Registry (DigitTables)
open Updates (decimalDigit optionalPart)

/-- `parsedate_to_datetime` and the instant of a date. One without a zone is in UTC. -/
class DateTexts where
  instant : String → Option ℚ

/-- The table that reads no date. -/
instance noDates : DateTexts where
  instant _ := none

/-- No decimal is a blank or the long s. -/
class ClockDigits extends DigitTables where
  decimal_blank : ∀ c, isSpace c = true → decimal c = none
  decimal_long : decimal 'ſ' = none

theorem isDigit_of_isSpace {c : Char} (h : isSpace c = true) : c.isDigit = false := by
  by_contra hdigit
  have hrange := SemVer.digit_range (Bool.eq_true_of_not_eq_false hdigit)
  rw [isSpace_eq_false (by omega) (by omega)] at h
  cases h

instance asciiClock : ClockDigits where
  toDigitTables := Registry.asciiDigits
  decimal_blank c h := by
    show (if c.isDigit then some (c.toNat-48) else none) = none
    rw [isDigit_of_isSpace h]
    rfl
  decimal_long := by decide

section Numbers

variable [DigitTables]

/-- A sign, and whether it is a minus. -/
def signed : List Char → Bool × List Char
  | '-'::l => (true,l)
  | '+'::l => (false,l)
  | l => (false,l)

/-- Underscores stand between digits and nowhere else. -/
def dropUnderscores (afterDigit : Bool) : List Char → Option (List Char)
  | [] => some []
  | c::rest =>
    if c = '_' then
      if afterDigit && rest.head?.any decimalDigit then dropUnderscores false rest else none
    else (dropUnderscores (decimalDigit c) rest).map (c::·)

def digitsValue (l : List Char) : ℕ := l.foldl (fun n c => 10*n+(DigitTables.decimal c).getD 0) 0

/-- The number with these digits before and after its point. -/
def decimalValue (whole fraction : List Char) : ℚ := digitsValue (whole++fraction)/10^fraction.length

/-- The exponent of a number, or nothing. -/
def exponent : List Char → Option ℤ
  | [] => some 0
  | c::l =>
    let power := signed l
    if (c = 'e' ∨ c = 'E') ∧ power.2 ≠ [] ∧ power.2.all decimalDigit then
      some (if power.1 then -digitsValue power.2 else digitsValue power.2)
    else none

/-- Digits, a point with digits before or after it, and an exponent. -/
def decimalOfChars (l : List Char) : Option ℚ :=
  let whole := l.takeWhile decimalDigit
  let fraction := match l.dropWhile decimalDigit with
    | '.'::rest => (rest.takeWhile decimalDigit,rest.dropWhile decimalDigit)
    | rest => ([],rest)
  if whole = [] ∧ fraction.1 = [] then none
  else (exponent fraction.2).map fun e => decimalValue whole fraction.1*10^e

/-- `float(s)`, unless that raises a `ValueError`. -/
def floatOfText (s : String) : Option PyFloat :=
  let number := signed (strip s).toList
  let word := number.2.map Char.toLower
  if word = ['i','n','f'] ∨ word = ['i','n','f','i','n','i','t','y'] then
    some (if number.1 then .negInf else .posInf)
  else if word = ['n','a','n'] then some .nan
  else do
    let digits ← dropUnderscores false number.2
    let value ← decimalOfChars digits
    return .finite (if number.1 then -value else value)

/-! Durations. -/

/-- A match of `_DURATION_PART`. -/
structure Part where
  whole : List Char
  fraction : Option (List Char)
  blanks : List Char
  unit : List Char

namespace Part

/-- `match.group(0)`. -/
def text (p : Part) : List Char :=
  p.whole++((p.fraction.map ('.'::·)).getD []++(p.blanks++p.unit))

/-- `float(match.group(1))`. -/
def amount (p : Part) : ℚ := decimalValue p.whole (p.fraction.getD [])

end Part

/-- `m` under `re.IGNORECASE`. -/
def isM (c : Char) : Bool := c = 'm' || c = 'M'

/-- `s` under `re.IGNORECASE`, which is also the long s. -/
def isS (c : Char) : Bool := c = 's' || c = 'S' || c = 'ſ'

def isH (c : Char) : Bool := c = 'h' || c = 'H'

/-- `(ms|s|m|h)`, and the rest. -/
def unitAt : List Char → Option (List Char × List Char)
  | [] => none
  | c::rest =>
    if isM c && rest.head?.any isS then some (c::rest.take 1,rest.drop 1)
    else if isS c || isM c || isH c then some ([c],rest)
    else none

/-- A match where the text begins, and the rest. No shorter number or blank lets the unit match. -/
def partAt (l : List Char) : Option (Part × List Char) :=
  let whole := l.takeWhile decimalDigit
  let fraction := optionalPart (l.dropWhile decimalDigit)
  if whole = [] then none
  else (unitAt (fraction.2.dropWhile isSpace)).map fun found =>
    (⟨whole,fraction.1,fraction.2.takeWhile isSpace,found.1⟩,found.2)

/-- `_DURATION_PART.finditer`, where so many characters still belong to the last match. -/
def finditer : ℕ → List Char → List Part
  | _,[] => []
  | skip+1,_::rest => finditer skip rest
  | 0,c::rest =>
    match partAt (c::rest) with
    | some (p,_) => p::finditer (p.text.length-1) rest
    | none => finditer 0 rest

/-- `multipliers[unit.lower()]`. -/
def multiplier (unit : List Char) : Option ℚ :=
  let key := unit.map Char.toLower
  if key = ['m','s'] then some (1/1000)
  else if key = ['s'] then some 1
  else if key = ['m'] then some 60
  else if key = ['h'] then some 3600
  else none

def seconds (parts : List Part) : Option ℚ :=
  (parts.mapM fun p => (multiplier p.unit).map (p.amount*·)).map List.sum

/-- `text.replace(" ", "")`. -/
def dropSpaces (l : List Char) : List Char := l.filter (· ≠ ' ')

/-- A unit that `multipliers` does not have. -/
inductive DurationError
  | key
  deriving DecidableEq

/-- `_duration_seconds`. -/
def durationSeconds (value : List Char) : Except DurationError (Option ℚ) :=
  let found := finditer 0 value
  let matched := dropSpaces (found.flatMap Part.text)
  if found = [] ∨ matched ≠ dropSpaces value then .ok none
  else
    match seconds found with
    | some q => .ok (some q)
    | none => .error .key

end Numbers

/-! Headers. -/

section Headers

variable [CaseTables] [DigitTables] [DateTexts]

/-- `_RESET_HEADERS`. -/
def resetHeaders : List String :=
  ["x-ratelimit-reset-after","x-ratelimit-reset-requests","x-ratelimit-reset-tokens",
    "x-ratelimit-reset","ratelimit-reset"]

/-- `normalized.get(name, "")`. Of keys that differ in case the last one counts. -/
def headerValue (headers : List (String × String)) (name : String) : String :=
  ((headers.reverse.find? fun header => CaseTables.lower header.1 = name).map fun header =>
    strip header.2).getD ""

/-- `_retry_after_delay`. -/
def retryAfterDelay (value : String) (now : ℚ) : Option PyFloat :=
  if value = "" then none
  else
    match floatOfText value with
    | some number => some number
    | none => (DateTexts.instant value).map fun instant => .finite (instant-now)

/-- `number / 1_000.0`. -/
def milliseconds : PyFloat → PyFloat
  | .finite q => .finite (q/1000)
  | x => x

/-- `number - now`. -/
def since (now : ℚ) : PyFloat → PyFloat
  | .finite q => .finite (q-now)
  | x => x

/-- A number of a reset header: the epoch in milliseconds or seconds, or a delay. -/
def numberDelay (number : PyFloat) (now : ℚ) : PyFloat :=
  let number := if PyFloat.lt (.finite 10000000000) number then milliseconds number else number
  if PyFloat.lt (.finite (now+1)) number then since now number else number

/-- `value.strip().lower()`. -/
def compact (value : String) : String := CaseTables.lower (strip value)

/-- `_reset_delay`. -/
def resetDelay (value : String) (now : ℚ) : Except DurationError (Option PyFloat) :=
  if value = "" then .ok none
  else do
    match ← durationSeconds (compact value).toList with
    | some duration => return some (.finite duration)
    | none => return (floatOfText (compact value)).map fun number => numberDelay number now

/-- `retry_delay_from_headers`. -/
def retryDelayFromHeaders (headers : List (String × String)) (maximum now : ℚ) :
    Except DurationError (Option PyFloat) :=
  if headers = [] then .ok none
  else do
    let resets ← resetHeaders.mapM fun name => resetDelay (headerValue headers name) now
    match (retryAfterDelay (headerValue headers "retry-after") now::resets).filterMap id with
    | [] => return none
    | delay::delays =>
      return some (PyFloat.min (PyFloat.max (.finite 0) (.finite maximum))
        (PyFloat.max (.finite 0) (delays.foldl PyFloat.max delay)))

end Headers

end Retry
end WormholeObservatory
