import Squiddish.Lib.Text

/-!
# Error — the error type of the proxy and the results of its functions

A function of the source ends in one of three ways: with a value, with a `ProxyError`, or with a
panic (a slice outside a string, a capacity that overflows).  `Outcome` keeps all three apart.
-/

namespace Squiddish

open Lib

/-- `error.rs`: every variant carries the text of what went wrong. -/
inductive ProxyError
  | io (text : Str)
  | http (text : Str)
  | hyper (text : Str)
  | hyperUtil (text : Str)
  | invalidUri (text : Str)
  | cache (text : Str)
  | tunnel (text : Str)
  | validationFailed (text : Str)
  | dnsError (text : Str)
  | network (text : Str)
  deriving DecidableEq, Repr

/-- The `Display` text of an error. -/
def ProxyError.toText : ProxyError → Str
  | .io text => "IO error: ".toList ++ text
  | .http text => "HTTP error: ".toList ++ text
  | .hyper text => "Hyper error: ".toList ++ text
  | .hyperUtil text => "Hyper util error: ".toList ++ text
  | .invalidUri text => "Invalid URI: ".toList ++ text
  | .cache text => "Cache error: ".toList ++ text
  | .tunnel text => "Tunnel error: ".toList ++ text
  | .validationFailed text => "Request validation failed: ".toList ++ text
  | .dnsError text => "DNS lookup failed: ".toList ++ text
  | .network text => "Network error: ".toList ++ text

inductive Failure
  | error (e : ProxyError)
  | panic
  deriving DecidableEq, Repr

abbrev Outcome (α : Type) := Except Failure α

theorem Outcome.ok_ne_panic {α : Type} (a : α) : (.ok a : Outcome α) ≠ .error .panic := by
  intro h
  cases h

theorem Outcome.error_ne_panic {α : Type} (e : ProxyError) :
    (.error (.error e) : Outcome α) ≠ .error .panic := by
  intro h
  cases h

end Squiddish
