import Mathlib.Data.Rat.Defs
import Mathlib.Tactic

/-! The classification of a domain, as providers return it and workers act on it. -/
namespace WormholeObservatory

inductive Policy
  | allow
  | deny
  | manualReview
  | unknown
  deriving DecidableEq, Repr

def Policy.value : Policy → String
  | .allow => "allow"
  | .deny => "deny"
  | .manualReview => "manual_review"
  | .unknown => "unknown"

inductive ServiceRole
  | core
  | optional
  | shared
  | unknown
  deriving DecidableEq, Repr

def ServiceRole.value : ServiceRole → String
  | .core => "core"
  | .optional => "optional"
  | .shared => "shared"
  | .unknown => "unknown"

structure Classification where
  domain : String
  policy : Policy
  category : String
  short : String
  details : String
  provider : String
  tags : List String := []
  service : String := ""
  serviceRole : ServiceRole := .unknown
  privacyRisk : ℤ := 0
  securityRisk : ℤ := 0
  breakageRisk : ℤ := 50
  confidence : ℚ := 0
  needsReview : Bool := true
  reviewReason : String := ""
  recheckAfterDays : ℤ := 30
  rawText : String := ""

end WormholeObservatory
