import Squiddish.Config
import Squiddish.Error
import Squiddish.Http

/-!
# Validate — the checks made on every request

`handler.rs` decides from the request head alone whether a request is served: no request loop,
an allowed host, no blocked host, an absolute URI.
-/

namespace Squiddish
namespace Proxy

open Lib

/-! ## Host patterns -/

/-- `strip_host_port`. -/
def stripHostPort (host : Str) : Str :=
  match host with
  | '[' :: rest => beforeFirst ']' rest
  | _ =>
      -- A bare IPv6 address has several colons and no port.
      if host.count ':' > 1 then host
      else
        match rsplitOnce ':' host with
        | some (h, _) => h
        | none => host

/-- `host_matches`.  The slice at `host.len() - pattern.len()` panics inside a character. -/
def hostMatches (host pattern : Str) : Outcome Bool :=
  let host := stripHostPort host
  if eqIgnoreAsciiCase host pattern then
    .ok true
  else if utf8Len host > utf8Len pattern then
    -- a proper suffix counts only after a dot
    match dropBytes (utf8Len host - utf8Len pattern) host with
    | some tail =>
        .ok (eqIgnoreAsciiCase tail pattern &&
          (host.take (host.length - tail.length)).getLast? == some '.')
    | none => .error .panic
  else
    .ok false

/-- Whether some pattern matches, trying them in order. -/
def anyHostMatches (host : Str) : List Str → Outcome Bool
  | [] => .ok false
  | pattern :: patterns =>
      match hostMatches host pattern with
      | .ok true => .ok true
      | .ok false => anyHostMatches host patterns
      | .error e => .error e

/-! ## Request loops -/

/-- `has_via_loop`. -/
def hasViaLoop (headers : HeaderMap) : Bool :=
  (headers.items "via".toList).any (fun entry =>
    eqIgnoreAsciiCase (trim entry) "1.1 squiddish".toList)

/-! ## Requests -/

/-- The host a request is judged by: that of the URI, else the `Host` header. -/
def requestHost (req : Request) : Option Str :=
  match req.uri.host with
  | some host => some host
  | none => (req.headers.get "host".toList).bind HeaderValue.toStr

/-- `ProxyHandler::validate_request`. -/
def validateRequest (security : SecurityConfig) (req : Request) : Outcome Unit := do
  if hasViaLoop req.headers then
    throw (.error (.validationFailed "Request loop detected via Via header".toList))
  if security.allowedHosts ≠ [] then
    match requestHost req with
    | none => throw (.error (.validationFailed "Missing host".toList))
    | some host =>
        let allowed ← anyHostMatches host security.allowedHosts
        if !allowed then
          throw (.error (.validationFailed ("Host not allowed: ".toList ++ host)))
  if security.blockedHosts ≠ [] then
    match requestHost req with
    | none => throw (.error (.validationFailed "Missing host".toList))
    | some host =>
        let blocked ← anyHostMatches host security.blockedHosts
        if blocked then
          throw (.error (.validationFailed ("Host blocked: ".toList ++ host)))
  if req.uri.scheme.isNone ∧ req.method ≠ "CONNECT".toList then
    throw (.error (.invalidUri "Request must include scheme".toList))

end Proxy
end Squiddish
