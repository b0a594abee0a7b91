import WormholeObservatory.RegistryFormat
import WormholeObservatory.SemVer

/-! The versions of releases: the key they are compared by, the release that is chosen among those
of a channel, and whether an update is on offer. -/
namespace WormholeObservatory
namespace Updates

open SemVer
open Registry (DigitTables)

/-- `(major, minor, patch, stable, suffix)`. -/
structure VersionKey where
  major : ℕ
  minor : ℕ
  patch : ℕ
  stable : ℤ
  suffix : List Char
  deriving DecidableEq

/-- Tuples in order of their first difference. -/
def keyCompare (a b : VersionKey) : Ordering :=
  (compare a.major b.major).then ((compare a.minor b.minor).then ((compare a.patch b.patch).then
    ((compare a.stable b.stable).then (textCompare a.suffix b.suffix))))

section Keys

variable [CaseTables] [DigitTables]

/-- `\\d`. -/
def decimalDigit (c : Char) : Bool := (DigitTables.decimal c).isSome

omit [CaseTables] in
theorem decimalDigit_ascii {c : Char} (h : c.toNat < 128) : decimalDigit c = c.isDigit := by
  rw [decimalDigit,DigitTables.decimal_ascii c h]
  cases c.isDigit <;> rfl

/-- `int(digits)`, which raises a `ValueError` on more than 4300 of them. -/
def readDigits (digits : List Char) : Option ℕ :=
  if 4300 < digits.length then none
  else (digits.mapM DigitTables.decimal).map fun values => values.foldl (fun n d => 10*n+d) 0

/-- `(?:\\.(\\d+))?`, and the rest. -/
def optionalPart : List Char → Option (List Char) × List Char
  | '.'::rest =>
    if rest.takeWhile decimalDigit = [] then (none,'.'::rest)
    else (some (rest.takeWhile decimalDigit),rest.dropWhile decimalDigit)
  | l => (none,l)

/-- `(?:[-+](.*))?$` on a text that does not end in a line break. -/
def matchSuffix : List Char → Option (Option (List Char))
  | [] => some none
  | c::rest => if (c = '-' ∨ c = '+') ∧ '\n' ∉ rest then some (some rest) else none

/-- The groups of `_VERSION_RE`. -/
structure VersionMatch where
  major : List Char
  minor : Option (List Char)
  patch : Option (List Char)
  suffix : Option (List Char)

/-- `_VERSION_RE.match`. No shorter match of a group lets the rest match. -/
def matchVersion (text : List Char) : Option VersionMatch :=
  let l := if text.head? = some 'v' then text.tail else text
  let major := l.takeWhile decimalDigit
  let minor := optionalPart (l.dropWhile decimalDigit)
  let patch := optionalPart minor.2
  if major = [] then none
  else (matchSuffix patch.2).map fun suffix => ⟨major,minor.1,patch.1,suffix⟩

/-- `_version_key`. -/
def versionKey (value : String) : Option VersionKey :=
  let normalized := strip value
  match matchVersion normalized.toList with
  | none => some ⟨0,0,0,-1,(CaseTables.casefold normalized).toList⟩
  | some found => do
    let suffix := found.suffix.getD []
    let stable := if suffix = [] then 1 else 0
    let major ← readDigits found.major
    let minor ← (found.minor.map readDigits).getD (some 0)
    let patch ← (found.patch.map readDigits).getD (some 0)
    return ⟨major,minor,patch,stable,suffix⟩

/-- `compare_versions`. -/
def compareVersions (left right : String) : Option ℤ := do
  let leftKey ← versionKey left
  let rightKey ← versionKey right
  return (if keyCompare leftKey rightKey = .gt then 1 else 0)-
    (if keyCompare leftKey rightKey = .lt then 1 else 0)

/-! Releases. -/

/-- What is read of a release. A field that is missing is empty. -/
structure Release where
  tagName : String
  name : String
  targetCommitish : String
  draft : Bool
  prerelease : Bool
  deriving DecidableEq

namespace Release

/-- `str(item.get("tag_name") or item.get("name") or "")`. -/
def version (r : Release) : String := orElse r.tagName r.name

/-- `_is_development_release`. -/
def isDevelopment (r : Release) : Bool :=
  r.prerelease && (CaseTables.lower r.targetCommitish = "dev" ||
    startsWith (CaseTables.lower r.tagName) "dev-" ||
    contains (CaseTables.lower r.name) "development build")

end Release

inductive FetchError
  | noRelease
  | badNumber
  deriving DecidableEq

/-- `max` by the version key: the first release with the highest key. -/
def highest : Release → VersionKey → List Release → Except FetchError Release
  | best,_,[] => .ok best
  | best,key,r::rs =>
    match versionKey r.version with
    | none => .error .badNumber
    | some key' => if keyCompare key' key = .gt then highest r key' rs else highest best key rs

/-- `_fetch_release_payload` in the channel of pre-releases, on what the server lists; an entry that
is no dictionary is `none`. -/
def fetchReleasePayload (releases : List (Option Release)) : Except FetchError Release :=
  match (releases.filterMap id).filter fun r => !r.draft with
  | [] => .error .noRelease
  | first::rest =>
    if first.isDevelopment then .ok first
    else
      match versionKey first.version with
      | none => .error .badNumber
      | some key => highest first key (rest.filter fun r => !r.isDevelopment)

/-- `tag.lstrip("vV")`. -/
def lstripV (tag : String) : String :=
  String.ofList (tag.toList.dropWhile fun c => c == 'v' || c == 'V')

/-- `_display_version`, where `own` is the version of the program. -/
def displayVersion (own tag channel : String) : String :=
  if channel = "prerelease" ∧ startsWith (CaseTables.lower (lstripV tag)) "dev-" then own
  else lstripV tag

structure UpdateInfo where
  currentVersion : String
  latestVersion : String
  buildId : String
  currentBuildId : String
  buildBased : Bool

/-- `_same_build_id`. -/
def sameBuildId (left right : String) : Bool :=
  let left := CaseTables.lower (strip left)
  let right := CaseTables.lower (strip right)
  left ≠ "" && right ≠ "" && (startsWith left right || startsWith right left)

/-- `UpdateInfo.available`. -/
def UpdateInfo.available (info : UpdateInfo) : Option Bool :=
  if info.buildBased then
    some (info.buildId ≠ "" && !sameBuildId info.buildId info.currentBuildId)
  else (compareVersions info.latestVersion info.currentVersion).map fun sign => 0 < sign

end Keys

end Updates
end WormholeObservatory
