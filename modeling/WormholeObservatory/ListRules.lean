import WormholeObservatory.IpAddresses
import WormholeObservatory.Letters

/-! The rules of block lists: plain names, lines of a hosts file and filters that begin with `||`.
Two modules of the program read them, each with a parser of its own. -/
namespace WormholeObservatory
namespace Lists

open IpAddresses

def Ascii (s : String) : Prop := ∀ c ∈ s.toList, c.toNat < 128

/-- `s.split(".")`. -/
def dotted (s : String) : List (List Char) := s.toList.splitOn '.'

/-- `s.encode("idna").decode("ascii")`, unless that raises a `UnicodeError`. A name of ASCII
letters is left as it is, and taken when its labels have between one and 63 of them. -/
class IdnaCodec where
  encode : String → Option String
  encode_ascii : ∀ s t, Ascii s → encode s = some t → t = s
  encode_name : ∀ s, Ascii s → (∀ l ∈ dotted s, 1 ≤ l.length ∧ l.length ≤ 63) → encode s = some s

/-- `_HOST_LABEL_RE.fullmatch`. -/
def matchesHostLabel : List Char → Bool
  | [] => false
  | c::rest => c.isAlphanum && (rest.isEmpty ||
      decide (rest.length ≤ 62) && rest.dropLast.all (fun c => c.isAlphanum || c == '-') &&
        rest.getLast?.any Char.isAlphanum)

def labelFails (l : List Char) : Bool :=
  l.isEmpty || decide (63 < l.length) || !matchesHostLabel l

/-- The marks that make a filter more than a name. -/
def wildcards : List Char := ['*','[',']','(',')','\\']

def marks : List Char := ['/','^','$','|','*','=',',',';','(',')','[',']','\\']

/-- `s.strip("|/")`. -/
def stripBars (s : List Char) : List Char :=
  (s.dropWhile fun c => c == '|' || c == '/').rdropWhile fun c => c == '|' || c == '/'

section Parsers

variable [CaseTables] [IdnaCodec]

namespace RuleParser

/-- `_validated_domain` of the parser of audited lists. -/
def validatedDomain (value : String) : String :=
  let normalized := rstripDots (CaseTables.lower (strip value))
  if normalized = "" ∨ 253 < normalized.toList.length ∨ '.' ∉ normalized.toList then ""
  else if isIpAddress normalized then ""
  else
    match IdnaCodec.encode normalized with
    | none => ""
    | some asciiDomain => if (dotted asciiDomain).any labelFails then "" else normalized

/-- `domain_from_list_rule`. -/
def domainFromListRule (rule : String) : String :=
  let value := strip rule
  if value = "" ∨ ["!","#","[","@@"].any (startsWith value) then ""
  else if startsWith value "||" then
    let candidate := (value.toList.drop 2).takeWhile (· ≠ '$')
    let candidate := stripBars (candidate.takeWhile (· ≠ '^'))
    if candidate = [] ∨ candidate.any (· ∈ wildcards) then ""
    else validatedDomain (String.ofList candidate)
  else
    let fields := words value
    if 2 ≤ fields.length ∧ isIpAddress (fields.getD 0 "") then validatedDomain (fields.getD 1 "")
    else if fields.length = 1 ∧ ¬value.toList.any (· ∈ marks) then validatedDomain value
    else ""

end RuleParser

namespace RepositoryLists

/-- `_validated_domain` of the repository lists. -/
def validatedDomain (value : String) : String :=
  let normalized := normalizeDomain value
  if normalized = "" ∨ 253 < normalized.toList.length ∨ '.' ∉ normalized.toList then ""
  else if isIpAddress normalized then ""
  else
    match IdnaCodec.encode normalized with
    | none => ""
    | some asciiDomain => if (dotted asciiDomain).any labelFails then "" else normalized

/-- `_domain_from_repository_rule`. -/
def domainFromRepositoryRule (rule : String) : String :=
  let value := strip rule
  if value = "" ∨ ["!","#","[","@@"].any (startsWith value) then ""
  else if startsWith value "||" then
    let candidate := (value.toList.drop 2).takeWhile (· ≠ '$')
    let candidate := stripBars (candidate.takeWhile (· ≠ '^'))
    if candidate = [] ∨ candidate.any (· ∈ wildcards) then ""
    else validatedDomain (String.ofList candidate)
  else
    let fields := words value
    if 2 ≤ fields.length ∧ isIpAddress (fields.getD 0 "") then validatedDomain (fields.getD 1 "")
    else if fields.length = 1 ∧ ¬value.toList.any (· ∈ marks) then validatedDomain value
    else ""

theorem validatedDomain_eq (value : String) :
    validatedDomain value = RuleParser.validatedDomain value := rfl

/-- The two parsers are one function. -/
theorem domainFromRepositoryRule_eq (rule : String) :
    domainFromRepositoryRule rule = RuleParser.domainFromListRule rule := rfl

end RepositoryLists

end Parsers

end Lists
end WormholeObservatory
