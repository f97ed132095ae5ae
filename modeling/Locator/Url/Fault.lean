/-!
# Faults of URLs

Why a text is not a URL.
-/

namespace Locator.Url

/-- Why a text is not a URL. -/
inductive Fault where
  | emptyHost
  | invalidDomain
  | invalidPort
  | invalidIpv4
  | invalidIpv6
  | forbiddenHostCharacter
  | noScheme
  /-- A reason in the words of another reader of URLs. -/
  | stated (reason : String)
  deriving DecidableEq, Repr

namespace Fault

def message : Fault → String
  | emptyHost => "empty host"
  | invalidDomain => "invalid international domain name"
  | invalidPort => "invalid port number"
  | invalidIpv4 => "invalid IPv4 address"
  | invalidIpv6 => "invalid IPv6 address"
  | forbiddenHostCharacter => "invalid domain character"
  | noScheme => "relative URL without a base"
  | stated reason => reason

end Fault

end Locator.Url
