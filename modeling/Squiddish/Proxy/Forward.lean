import Squiddish.Cache.Example
import Squiddish.Proxy.Caching
import Squiddish.Proxy.Validate

/-!
# Forward — the request that goes upstream

A request is judged by the host of its URI and keyed by its URI, and it is forwarded with all its
end-to-end headers, `Host` among them.  The client of upstream adds a `Host` header only when there
is none.  `fetchedAsKeyed_iff` says on which requests what is fetched is what was judged and keyed.
-/

namespace Squiddish
namespace Proxy

open Lib Cache

/-! ## Filtered headers -/

/-- The names `filter_headers` removes. -/
def droppedNames (headers : HeaderMap) : List Str :=
  (headers.items "connection".toList).map (fun n => toAsciiLowercase (trim n)) ++ hopByHop

theorem foldl_remove (names : List Str) (headers : HeaderMap) :
    names.foldl HeaderMap.remove headers = headers.filter (fun p => p.1 ∉ names) := by
  induction names generalizing headers with
  | nil =>
      simp
  | cons name names ih =>
      rw [List.foldl_cons, ih, HeaderMap.remove, List.filter_filter]
      refine List.filter_congr ?_
      intro p _
      simp [Bool.and_comm]

theorem filterHeaders_eq_filter (headers : HeaderMap) :
    filterHeaders headers = headers.filter (fun p => p.1 ∉ droppedNames headers) :=
  foldl_remove _ headers

/-- `filter_headers` removes all lines of a name or none. -/
theorem getAll_filterHeaders (headers : HeaderMap) (name : Str) :
    (filterHeaders headers).getAll name =
      if name ∈ droppedNames headers then [] else headers.getAll name := by
  rw [filterHeaders_eq_filter]
  by_cases hname : name ∈ droppedNames headers
  -- the name is dropped: no line has it and is kept
  · rw [if_pos hname, HeaderMap.getAll, List.filter_filter]
    have hnone : headers.filter (fun p => decide (p.1 = name) &&
        decide (p.1 ∉ droppedNames headers)) = [] := by
      refine List.filter_eq_nil_iff.2 ?_
      rintro p _ hp
      have hboth : p.1 = name ∧ p.1 ∉ droppedNames headers := by
        simpa using hp
      exact hboth.2 (hboth.1 ▸ hname)
    rw [hnone, List.map_nil]
  · rw [if_neg hname, HeaderMap.getAll, HeaderMap.getAll, List.filter_filter]
    refine congrArg (List.map Prod.snd) (List.filter_congr ?_)
    intro p _
    by_cases hp : p.1 = name
    · simp [hp, hname]
    · simp [hp]

theorem getAll_append (headers : HeaderMap) (name name' : Str) (v : HeaderValue) :
    (headers.append name v).getAll name' =
      headers.getAll name' ++ (if name = name' then [v] else []) := by
  by_cases hname : name = name' <;>
    simp [HeaderMap.append, HeaderMap.getAll, List.filter_append, hname]

/-! ## The request -/

/-- The line the proxy appends to the `Via` header of every message. -/
def viaValue : HeaderValue :=
  .ofText "1.1 squiddish".toList

/-- `new_req` of `fetch_and_stream` and `forward_request_full`: the method, the URI and the body are
those of the request. -/
def newReq (req : Request) : Request :=
  { req with headers := (filterHeaders req.headers).append "via".toList viaValue }

/-- Apart from `Via`, the lines of a name are forwarded as they are or not at all. -/
theorem getAll_newReq (req : Request) {name : Str} (hvia : "via".toList ≠ name) :
    (newReq req).headers.getAll name =
      if name ∈ droppedNames req.headers then [] else req.headers.getAll name := by
  calc
    (newReq req).headers.getAll name =
        (filterHeaders req.headers).getAll name ++
            (if "via".toList = name then [viaValue] else []) :=
          getAll_append _ _ _ _
    _ = (filterHeaders req.headers).getAll name := by
          rw [if_neg hvia, List.append_nil]
    _ = if name ∈ droppedNames req.headers then [] else req.headers.getAll name :=
          getAll_filterHeaders _ _

/-- What goes upstream came from the client. -/
theorem getAll_of_newReq {req : Request} {name : Str} (hvia : "via".toList ≠ name)
    (h : (newReq req).headers.getAll name ≠ []) : req.headers.getAll name ≠ [] := by
  rw [getAll_newReq req hvia] at h
  intro hnone
  simp [hnone] at h

/-! ## Hosts -/

/-- The value is the authority without its user information. -/
def NamesAuthority (authority : Str) (v : HeaderValue) : Prop :=
  ∃ t, HeaderValue.toStr v = some t ∧ eqIgnoreAsciiCase t (afterLast '@' authority) = true

/-- The `Host` lines name the authority: the client of upstream will add one that does, or there
is exactly one. -/
def HostLines (authority : Str) (lines : List HeaderValue) : Prop :=
  lines = [] ∨ ∃ v, lines = [v] ∧ NamesAuthority authority v

/-- What is fetched is what is judged and keyed. -/
structure FetchedAsKeyed (sha256 : Bytes → Vector UInt8 32) (authority : Str) (req : Request) :
    Prop where
  judged : requestHost req = some (authorityHost authority)
  keyed : (createCacheKey sha256 req).uri = req.uri.text
  uri : (newReq req).uri = req.uri
  host : HostLines authority ((newReq req).headers.getAll "host".toList)

/-- The client's own `Host` lines name the authority, or its `Connection` header has them
removed. -/
def HostAgrees (authority : Str) (req : Request) : Prop :=
  "host".toList ∈ droppedNames req.headers ∨ HostLines authority (req.headers.getAll "host".toList)

/-- What is fetched is what is judged and keyed exactly when the client's `Host` lines agree with
its URI. -/
theorem fetchedAsKeyed_iff (sha256 : Bytes → Vector UInt8 32) {req : Request} {authority : Str}
    (hauthority : req.uri.authority = some authority) :
    FetchedAsKeyed sha256 authority req ↔ HostAgrees authority req := by
  have hvia : "via".toList ≠ "host".toList := by
    decide
  have hlines := getAll_newReq req hvia
  constructor
  · intro h
    by_cases hdropped : "host".toList ∈ droppedNames req.headers
    · exact Or.inl hdropped
    · rw [if_neg hdropped] at hlines
      exact Or.inr (hlines ▸ h.host)
  · intro h
    refine ⟨by simp [requestHost, Uri.host, hauthority], rfl, rfl, ?_⟩
    by_cases hdropped : "host".toList ∈ droppedNames req.headers
    · exact Or.inl (hlines.trans (if_pos hdropped))
    · rw [hlines, if_neg hdropped]
      exact h.resolve_left hdropped

/-- A request for a page of `example.com` with this `Host` header. -/
def hostRequest (host : Str) : Request :=
  { method := "GET".toList
    uri :=
      { scheme := some "http".toList
        authority := some "example.com".toList
        text := "http://example.com/".toList }
    headers := [("host".toList, .ofText host)] }

theorem fetchedAsKeyed_same :
    FetchedAsKeyed exampleSha256 "example.com".toList (hostRequest "Example.com".toList) :=
  (fetchedAsKeyed_iff _ rfl).2
    (Or.inr (Or.inr ⟨.ofText "Example.com".toList, by decide, "Example.com".toList, by decide,
      by decide⟩))

/-- With `example.com` as the only allowed host, a request for it with the `Host` header of another
site is accepted, forwarded with that header and stored under the key of the honest request. -/
theorem not_fetchedAsKeyed_evil :
    ¬ ∀ (sha256 : Bytes → Vector UInt8 32) (security : SecurityConfig) (req : Request)
      (authority : Str), validateRequest security req = .ok () →
      req.method = "GET".toList ∨ req.method = "HEAD".toList →
      req.uri.authority = some authority → FetchedAsKeyed sha256 authority req := by
  intro h
  have hfetched := h exampleSha256
    { Config.default.security with allowedHosts := ["example.com".toList] }
    (hostRequest "evil.com".toList) "example.com".toList (by decide) (Or.inl rfl) rfl
  rcases hfetched.host with hnone | ⟨v, hone, t, htext, heq⟩
  · exact absurd hnone (by decide)
  · have hv : v = .ofText "evil.com".toList := by
      have hlines : (newReq (hostRequest "evil.com".toList)).headers.getAll "host".toList =
          [.ofText "evil.com".toList] := by
        decide
      simpa using (hlines.symm.trans hone).symm
    subst hv
    have ht : t = "evil.com".toList := by
      have htext' : HeaderValue.toStr (.ofText "evil.com".toList) = some "evil.com".toList := by
        decide
      exact Option.some.inj (htext.symm.trans htext')
    subst ht
    exact absurd heq (by decide)

end Proxy
end Squiddish
