import Squiddish.Cache.Entry
import Squiddish.Config

/-!
# Caching — what may be stored, for how long, and under which key

The pure decisions of `fetch_and_stream`: which headers are kept, whether a response may be
replayed to other requests, how long it lives, and the key of a request.
-/

namespace Squiddish
namespace Proxy

open Lib Cache

/-! ## Headers that end at one hop -/

/-- The names removed whatever the `Connection` header says. -/
def hopByHop : List Str :=
  ["connection".toList, "keep-alive".toList, "proxy-authenticate".toList,
    "proxy-authorization".toList, "te".toList, "trailers".toList,
    "transfer-encoding".toList, "upgrade".toList]

/-- `filter_headers`. -/
def filterHeaders (headers : HeaderMap) : HeaderMap :=
  let extraHopByHop := (headers.items "connection".toList).map (fun n => toAsciiLowercase (trim n))
  (extraHopByHop ++ hopByHop).foldl HeaderMap.remove headers

/-- The `(String, String)` pairs `fetch_and_stream` publishes and stores.  A value that is not
text becomes the empty string. -/
def headersVec (headers : HeaderMap) : List (Str × Str) :=
  headers.map (fun p => (p.1, (HeaderValue.toStr p.2).getD []))

/-! ## Storage decision -/

/-- Whether a comma-separated header names one of `tokens`, ignoring case and white space. -/
def hasToken (headers : HeaderMap) (name : Str) (tokens : List Str) : Bool :=
  (headers.items name).any (fun d => tokens.any (fun t => eqIgnoreAsciiCase (trim d) t))

/-- `should_cache_response`. -/
def shouldCacheResponse (status : Nat) (headers : HeaderMap) : Bool :=
  decide (200 ≤ status ∧ status < 300) &&
    !hasToken headers "cache-control".toList
      ["no-store".toList, "no-cache".toList, "private".toList] &&
    !hasToken headers "pragma".toList ["no-cache".toList] &&
    !hasToken headers "vary".toList ["*".toList, "authorization".toList, "cookie".toList]

/-- The response says that it is meant for the requesting client only. -/
def isPrivate (headers : HeaderMap) : Bool :=
  hasToken headers "cache-control".toList ["no-store".toList, "private".toList] ||
    hasToken headers "vary".toList ["*".toList, "authorization".toList, "cookie".toList]

/-- `should_cache_response` refuses every private response. -/
theorem shouldCacheResponse_of_isPrivate {status : Nat} {headers : HeaderMap}
    (h : isPrivate headers = true) : shouldCacheResponse status headers = false := by
  rcases Bool.or_eq_true_iff.1 h with hcc | hvary
  · have hcc' : hasToken headers "cache-control".toList
        ["no-store".toList, "no-cache".toList, "private".toList] = true := by
      rcases List.any_eq_true.1 hcc with ⟨d, hd, ht⟩
      rcases List.any_eq_true.1 ht with ⟨t, hmem, heq⟩
      refine List.any_eq_true.2 ⟨d, hd, List.any_eq_true.2 ⟨t, ?_, heq⟩⟩
      rcases List.mem_cons.1 hmem with rfl | hmem
      · simp
      · have ht' : t = "private".toList := by simpa using hmem
        subst ht'
        simp
    unfold shouldCacheResponse
    rw [hcc']
    simp
  · unfold shouldCacheResponse
    rw [hvary]
    simp

/-! ## Lifetimes -/

/-- `apt.rs`. -/
def isAptRequest (uri : Str) : Bool :=
  ["://deb.debian.org".toList, "://archive.ubuntu.com".toList, "://security.ubuntu.com".toList,
      "://security.debian.org".toList, "://ppa.launchpad.net".toList].any (contains uri) ||
    ["/dists/".toList, "/pool/".toList].any (contains uri) ||
    ["Packages.gz".toList, "Packages.xz".toList, "Packages.bz2".toList, "Release.gpg".toList,
      "InRelease".toList].any (contains uri) ||
    endsWith uri ".deb".toList

def isAptPackageList (uri : Str) : Bool :=
  ["Packages.gz".toList, "Packages.xz".toList, "Packages.bz2".toList, "InRelease".toList].any
      (contains uri) ||
    (contains uri "/dists/".toList &&
      (endsWith uri "/Release".toList || endsWith uri "/Release.gpg".toList))

def isAptPackageFile (uri : Str) : Bool :=
  endsWith uri ".deb".toList

/-- The value of the last directive `name=seconds` whose seconds are a number. -/
def lastSeconds (name : Str) (directives : List Str) : Option Nat :=
  directives.foldl
    (fun found d =>
      match stripPrefix name d with
      | some val => (parseUnsigned 64 val).or found
      | none => found)
    none

/-- `parse_cache_control_headers` at the time `now`; `parseHttpDate` reads a date as nanoseconds
since the epoch. -/
def parseCacheControlHeaders (parseHttpDate : Str → Option Nat) (now : Nat)
    (headers : HeaderMap) : Option Nat :=
  let directives :=
    (headers.items "cache-control".toList).map (fun d => toAsciiLowercase (trim d))
  match lastSeconds "s-maxage=".toList directives with
  | some ttl => some ttl
  | none =>
      match lastSeconds "max-age=".toList directives with
      | some ttl => some ttl
      | none =>
          match headers.get "expires".toList with
          | none => none
          | some expires =>
              match (HeaderValue.toStr expires).bind parseHttpDate with
              | some expiresTime => some ((elapsedSecs now expiresTime).getD 0)
              -- a date that cannot be read counts as past
              | none => some 0

/-- The lifetime `fetch_and_stream` gives a cacheable response, or `none` when it is explicitly
expired and not stored. -/
def storedTtl (parseHttpDate : Str → Option Nat) (config : Config) (now : Nat) (uri : Str)
    (headers : HeaderMap) : Option Nat :=
  if config.apt.enabled && isAptRequest uri then
    if isAptPackageFile uri then some config.apt.packageTtlSeconds
    else if isAptPackageList uri then some config.apt.listTtlSeconds
    else some config.apt.otherTtlSeconds
  else
    match parseCacheControlHeaders parseHttpDate now headers with
    -- explicitly expired: not stored
    | some 0 => none
    | some ttl => some ttl
    | none => some config.cache.ttlSeconds

/-! ## The key of a request -/

/-- `create_cache_key`: the method, the URI and every `Accept-Encoding` line. -/
def createCacheKey (sha256 : Bytes → Vector UInt8 32) (req : Request) : CacheKey :=
  CacheKey.new sha256 req.method req.uri.text
    (((req.headers.filter (fun p => p.1 = "accept-encoding".toList))).map
      (fun p => (p.1, (HeaderValue.toStr p.2).getD [])))

end Proxy
end Squiddish
