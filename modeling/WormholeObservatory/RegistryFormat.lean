import WormholeObservatory.Letters

/-! The provider registry as a document: what `_parse_registry` accepts and how its version is
ordered. How JSON is read from bytes stays a parameter, and so do the conversions of the host. -/
namespace WormholeObservatory
namespace Registry

/-- A decoded JSON value. A number has no value here if it is infinite or not a number; what
`str` makes of a number, a list or an object is kept as its text. -/
inductive Json
  | null
  | bool (b : Bool)
  | number (value : Option ℚ) (text : String)
  | str (s : String)
  | list (items : List Json) (text : String)
  | object (fields : List (String × Json)) (text : String)

/-- `ProviderRegistryError` and what the host raises besides. -/
inductive RegistryError
  | registry (message : String)
  | other
  deriving DecidableEq

/-- How a conversion fails: with a `TypeError` or `ValueError`, or with something else. -/
inductive ConversionError
  | typeOrValue
  | other
  deriving DecidableEq

/-- What the host does with bytes and numbers. -/
structure Host (β : Type) where
  size : β → ℕ
  /-- `json.loads(payload.decode("utf-8"))`, unless that raises. -/
  decode : β → Option Json
  /-- `float(x) <= 0`. -/
  floatAtMostZero : Json → Except ConversionError Bool
  /-- `int(x) <= 0`. -/
  intAtMostZero : Json → Except ConversionError Bool

/-- Which code points are digits, and which of them `int` reads. Both are the ten digits in
ASCII. -/
class DigitTables where
  isDigit : Char → Bool
  decimal : Char → Option ℕ
  isDigit_ascii : ∀ c, c.toNat < 128 → isDigit c = c.isDigit
  decimal_ascii : ∀ c, c.toNat < 128 →
    decimal c = if c.isDigit then some (c.toNat-48) else none

/-- The table without digits outside ASCII. -/
instance asciiDigits : DigitTables where
  isDigit := Char.isDigit
  decimal c := if c.isDigit then some (c.toNat-48) else none
  isDigit_ascii _ _ := rfl
  decimal_ascii _ _ := rfl

namespace Json

/-- `bool(x)`. -/
def truthy : Json → Bool
  | .null => false
  | .bool b => b
  | .number value _ => decide (value ≠ some 0)
  | .str s => decide (s ≠ "")
  | .list items _ => !items.isEmpty
  | .object fields _ => !fields.isEmpty

/-- `str(x)`. -/
def display : Json → String
  | .null => "None"
  | .bool true => "True"
  | .bool false => "False"
  | .number _ text => text
  | .str s => s
  | .list _ text => text
  | .object _ text => text

/-- `str(x or default)`. -/
def textOr (default : String) (x : Json) : String := if x.truthy then x.display else default

/-- `x == 1`. -/
def isOne : Json → Bool
  | .bool b => b
  | .number value _ => decide (value = some 1)
  | _ => false

/-- `for item in x or []`, `none` if `x` cannot be iterated. -/
def items (x : Json) : Option (List Json) :=
  if x.truthy then
    match x with
    | .list items _ => some items
    | .str s => some (s.toList.map fun c => .str c.toString)
    | .object fields _ => some (fields.map fun field => .str field.1)
    | _ => none
  else some []

end Json

/-- `data.get(key)`. -/
def field (fields : List (String × Json)) (key : String) : Json := (fields.lookup key).getD .null

/-! Versions. -/

/-- Year, month, day and revision, compared in this order. -/
abbrev VersionKey := ℕ ×ₗ ℕ ×ₗ ℕ ×ₗ ℕ

section Versions

variable [DigitTables]

/-- `part.isdigit()`. -/
def isDigits (part : List Char) : Bool := !part.isEmpty && part.all DigitTables.isDigit

/-- `int(part)` on digits, which refuses more than 4300 of them. -/
def readInt (part : List Char) : Except RegistryError ℕ :=
  if 4300 < part.length then .error .other
  else
    match part.mapM DigitTables.decimal with
    | none => .error .other
    | some digits => .ok (digits.foldl (fun n d => 10*n+d) 0)

def daysInMonth (year month : ℕ) : ℕ :=
  if month = 2 then if year%4 = 0 ∧ (year%100 ≠ 0 ∨ year%400 = 0) then 29 else 28
  else if month ∈ [4,6,9,11] then 30
  else 31

/-- `date(year, month, day)` raises nothing. -/
def isDate (year month day : ℕ) : Bool :=
  decide (1 ≤ year ∧ year ≤ 9999 ∧ 1 ≤ month ∧ month ≤ 12 ∧ 1 ≤ day ∧ day ≤ daysInMonth year month)

/-- `_registry_version_key`. -/
def registryVersionKey (value : String) : Except RegistryError VersionKey := do
  let parts := value.toList.splitOn '.'
  if parts.length ∉ [3,4] ∨ (parts.take 3).map List.length ≠ [4,2,2] ∨
      parts.any (fun part => !isDigits part) then
    throw (.registry "Provider registry version must use YYYY.MM.DD[.revision].")
  let year ← readInt (parts.getD 0 [])
  let month ← readInt (parts.getD 1 [])
  let day ← readInt (parts.getD 2 [])
  if !isDate year month day then
    throw (.registry "Provider registry version contains an invalid date.")
  let revision ← if parts.length = 4 then readInt (parts.getD 3 []) else pure 0
  return toLex (year,toLex (month,toLex (day,revision)))

/-- A registry has a version with a key, as every registry that was parsed. -/
structure ProviderRegistry where
  registryVersion : String
  generatedAt : String
  entries : List (List (String × Json))
  source : String
  versionKey : VersionKey
  versioned : registryVersionKey registryVersion = .ok versionKey

end Versions

/-! Parsing. -/

def maxRegistryBytes : ℕ := 2000000

def allowedMetrics : List String :=
  ["requests","input_tokens","output_tokens","total_tokens","units"]

section Parsing

variable {β : Type} (host : Host β)

/-- A conversion inside `except (TypeError, ValueError)`. -/
def converted (entryId : String) : Except ConversionError Bool → Except RegistryError Bool
  | .ok b => .ok b
  | .error .typeOrValue =>
    .error (.registry ("Invalid limit value in registry entry "++entryId++"."))
  | .error .other => .error .other

/-- The loop over the limits of an entry. -/
def checkLimit (entryId : String) : Json → Except RegistryError Unit
  | .object limit _ => do
    let metric := (field limit "metric").textOr ""
    let amount := field limit "amount"
    let window := field limit "window_seconds"
    let amountLow ← converted entryId
      (host.floatAtMostZero (if amount.truthy then amount else .number (some 0) "0"))
    let windowLow ← converted entryId
      (host.intAtMostZero (if window.truthy then window else .number (some 0) "0"))
    if metric ∉ allowedMetrics ∨ amountLow ∨ windowLow then
      throw (.registry ("Invalid limit definition in registry entry "++entryId++"."))
    if (field limit "reset_policy").textOr "rolling" ∉ ["rolling","utc_day"] then
      throw (.registry ("Invalid reset policy in registry entry "++entryId++"."))
  | _ => .error (.registry ("Invalid limit in registry entry "++entryId++"."))

/-- The loop over the entries, with the ids seen so far. -/
def checkEntries : List String → List Json → Except RegistryError (List (List (String × Json)))
  | _,[] => .ok []
  | seen,.object entry _::rest => do
    let entryId := strip ((field entry "entry_id").textOr "")
    if entryId = "" ∨ entryId ∈ seen then
      throw (.registry "Provider registry entry IDs must be unique.")
    match (field entry "limits").items with
    | none => throw .other
    | some limits => limits.forM (checkLimit host entryId)
    return entry::(← checkEntries (entryId::seen) rest)
  | _,_::_ => .error (.registry "Provider registry entry is not an object.")

/-- `_parse_registry`. -/
def parseRegistry [DigitTables] (payload : β) (source : String) :
    Except RegistryError ProviderRegistry :=
  if maxRegistryBytes < host.size payload then
    .error (.registry "Provider registry exceeds the maximum allowed size.")
  else
    match host.decode payload with
    | none => .error (.registry "Provider registry is not valid UTF-8 JSON.")
    | some (.object data _) =>
      if !(field data "schema_version").isOne then
        .error (.registry "Unsupported provider registry schema.")
      else
        let registryVersion := strip ((field data "registry_version").textOr "")
        let generatedAt := strip ((field data "generated_at").textOr "")
        match field data "entries" with
        | .list entries _ =>
          if registryVersion = "" ∨ generatedAt = "" then
            .error (.registry "Provider registry metadata is incomplete.")
          else
            match h : registryVersionKey registryVersion with
            | .error e => .error e
            | .ok versionKey =>
              (checkEntries host [] entries).map fun accepted =>
                { registryVersion := registryVersion
                  generatedAt := generatedAt
                  entries := accepted
                  source := source
                  versionKey := versionKey
                  versioned := h }
        | _ => .error (.registry "Provider registry metadata is incomplete.")
    | some _ => .error (.registry "Unsupported provider registry schema.")

end Parsing

end Registry
end WormholeObservatory
