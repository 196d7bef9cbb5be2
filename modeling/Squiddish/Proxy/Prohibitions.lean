import Squiddish.Proxy.Directives
import Squiddish.Proxy.Fetch

/-!
# Prohibitions — responses that must not be stored

A response forbids its storage by its status, by a directive of `Cache-Control` or by `Pragma`.
`neverStored_iff_obeyed` says which of these are obeyed: those that survive the filter of the
headers, stand in a line of text and have no argument.
-/

namespace Squiddish
namespace Proxy

open Lib Cache

/-- The directives of `Cache-Control` that forbid storage. -/
def forbidding : List Str :=
  ["no-store".toList, "no-cache".toList, "private".toList]

/-- The names in `Vary` that `should_cache_response` does not store. -/
def sensitive : List Str :=
  ["*".toList, "authorization".toList, "cookie".toList]

def Successful (status : Nat) : Prop :=
  200 ≤ status ∧ status < 300

/-- The response as received forbids its storage. -/
def Forbidden (resp : Response) : Prop :=
  ¬ Successful resp.status ∨
    (∃ d ∈ directives resp.headers "cache-control".toList, d.name ∈ forbidding) ∨
    ∃ d ∈ directives resp.headers "pragma".toList,
      toAsciiLowercase (trim d.piece) = "no-cache".toList

/-- No answer of upstream with this head is ever stored. -/
def NeverStored (resp : Response) : Prop :=
  ∀ (parseHttpDate : Str → Option Nat) (config : Config)
    (fetch : Request → Bytes → Except ProxyError (Response × List Answer)) (key : CacheKey)
    (now later : Nat) (req : Request) (body : List (Except Str Frame)) (answers : List Answer),
    Answered config fetch req body resp answers →
      putsOf (fetchAndStream parseHttpDate config fetch key now later req body).2 = []

/-! ## What `should_cache_response` sees -/

/-- A directive that is still there when the decision is made, and can be read. -/
def Seen (headers : HeaderMap) (name : Str) (d : Directive) : Prop :=
  name ∉ droppedNames headers ∧ d ∈ directives headers name ∧ d.readable = true

theorem hasToken_filterHeaders_iff {headers : HeaderMap} {name : Str} {tokens : List Str} :
    hasToken (filterHeaders headers) name tokens = true ↔
      ∃ d, Seen headers name d ∧ ∃ t ∈ tokens, eqIgnoreAsciiCase (trim d.piece) t = true := by
  unfold hasToken
  rw [List.any_eq_true]
  constructor
  · rintro ⟨piece, hpiece, htoken⟩
    obtain ⟨d, hd, hreadable, rfl⟩ := mem_items_iff.1 hpiece
    rw [directives_filterHeaders] at hd
    by_cases hname : name ∈ droppedNames headers
    · simp [hname] at hd
    · rw [if_neg hname] at hd
      exact ⟨d, ⟨hname, hd, hreadable⟩, List.any_eq_true.1 htoken⟩
  · rintro ⟨d, ⟨hname, hd, hreadable⟩, htoken⟩
    refine ⟨d.piece, mem_items_iff.2 ⟨d, ?_, hreadable, rfl⟩, List.any_eq_true.2 htoken⟩
    rwa [directives_filterHeaders, if_neg hname]

theorem toAsciiLowercase_of_mem_forbidding {t : Str} (h : t ∈ forbidding) :
    toAsciiLowercase t = t ∧ '=' ∉ t := by
  revert t
  unfold forbidding
  decide

/-- The comparison with whole pieces finds a directive when it has no argument. -/
theorem eqIgnoreAsciiCase_forbidding_iff {d : Directive} :
    (∃ t ∈ forbidding, eqIgnoreAsciiCase (trim d.piece) t = true) ↔
      d.name ∈ forbidding ∧ '=' ∉ d.piece := by
  constructor
  · rintro ⟨t, ht, heq⟩
    have hword := toAsciiLowercase_of_mem_forbidding ht
    have htrim : toAsciiLowercase (trim d.piece) = t :=
      (eqIgnoreAsciiCase_iff.1 heq).trans hword.1
    have hnot : '=' ∉ d.piece := by
      intro hmem
      have hlower : '='.toLower ∈ toAsciiLowercase (trim d.piece) :=
        List.mem_map_of_mem ((mem_trim_iff (by decide)).2 hmem)
      exact hword.2 (htrim ▸ hlower)
    exact ⟨by rwa [Directive.name_of_notMem hnot, htrim], hnot⟩
  · rintro ⟨hname, hnot⟩
    rw [Directive.name_of_notMem hnot] at hname
    refine ⟨_, hname, eqIgnoreAsciiCase_iff.2 ?_⟩
    exact (toAsciiLowercase_of_mem_forbidding hname).1.symm

theorem shouldCacheResponse_eq_false_iff {status : Nat} {headers : HeaderMap} :
    shouldCacheResponse status headers = false ↔
      ¬ Successful status ∨
        hasToken headers "cache-control".toList forbidding = true ∨
        hasToken headers "pragma".toList ["no-cache".toList] = true ∨
        hasToken headers "vary".toList sensitive = true := by
  unfold shouldCacheResponse Successful forbidding sensitive
  simp only [Bool.and_eq_false_iff, Bool.not_eq_false', decide_eq_false_iff_not, or_assoc]

/-! ## When a response is never stored -/

/-- A response that is not refused is stored for some key: under an APT path no lifetime is
zero. -/
theorem neverStored_iff_refused {resp : Response} :
    NeverStored resp ↔ shouldCacheResponse resp.status (filterHeaders resp.headers) = false := by
  constructor
  · intro hnever
    by_contra hcacheable
    let key : CacheKey := { hash := .replicate 32 0, uri := "/pool/".toList }
    let fetch : Request → Bytes → Except ProxyError (Response × List Answer) :=
      fun _ _ => .ok (resp, [])
    have hanswered : Answered Config.default fetch (hostRequest []) [] resp [] :=
      ⟨[], rfl, rfl⟩
    have hapt : (Config.default.apt.enabled && isAptRequest key.uri) = true := by
      decide +kernel
    have hstorable : Storable (fun _ => none) Config.default key 0 resp [] :=
      ⟨by simpa using hcacheable, fun a ha => (by cases ha), Nat.zero_le _,
        fun h => absurd hapt (by simp [h.1])⟩
    obtain ⟨ttl, -, hputs⟩ := putsOf_of_storable 0 hstorable
    have hnone := hnever (fun _ => none) Config.default fetch key 0 0 (hostRequest []) [] []
      hanswered
    rw [fetchAndStream_of_answered hanswered, hputs] at hnone
    cases hnone
  · intro hrefused parseHttpDate config fetch key now later req body answers hanswered
    rw [fetchAndStream_of_answered hanswered]
    refine putsOf_of_not_storable later ?_
    intro hstorable
    rw [hstorable.cacheable] at hrefused
    cases hrefused

/-- What `should_cache_response` obeys: a directive that is seen and has no argument, or a header
that forbids storage for another reason. -/
def Obeyed (resp : Response) : Prop :=
  ¬ Successful resp.status ∨
    (∃ d, Seen resp.headers "cache-control".toList d ∧ d.name ∈ forbidding ∧ '=' ∉ d.piece) ∨
    (∃ d, Seen resp.headers "pragma".toList d ∧
      toAsciiLowercase (trim d.piece) = "no-cache".toList) ∨
    ∃ d, Seen resp.headers "vary".toList d ∧
      ∃ t ∈ sensitive, eqIgnoreAsciiCase (trim d.piece) t = true

/-- A response is never stored exactly when what forbids it is obeyed. -/
theorem neverStored_iff_obeyed {resp : Response} : NeverStored resp ↔ Obeyed resp := by
  have hcacheControl :=
    @hasToken_filterHeaders_iff resp.headers "cache-control".toList forbidding
  simp only [eqIgnoreAsciiCase_forbidding_iff] at hcacheControl
  have hpragma : hasToken (filterHeaders resp.headers) "pragma".toList ["no-cache".toList] = true ↔
      ∃ d, Seen resp.headers "pragma".toList d ∧
        toAsciiLowercase (trim d.piece) = "no-cache".toList := by
    rw [hasToken_filterHeaders_iff]
    simp only [List.mem_singleton, exists_eq_left, eqIgnoreAsciiCase_iff]
    rfl
  rw [neverStored_iff_refused, shouldCacheResponse_eq_false_iff, hcacheControl, hpragma,
    hasToken_filterHeaders_iff]
  rfl

/-- A response that forbids its storage is kept out exactly when what forbids it is obeyed. -/
theorem forbidden_neverStored_iff (resp : Response) :
    (Forbidden resp → NeverStored resp) ↔ (Forbidden resp → Obeyed resp) := by
  rw [neverStored_iff_obeyed]

/-- A response with this `Cache-Control` line. -/
def cacheControlResponse (line : Str) : Response :=
  { status := 200, headers := [("cache-control".toList, .ofText line)] }

/-- `private="x"` does not keep a response out of the cache. -/
theorem not_forbidden_neverStored_private :
    ¬ ∀ resp, Forbidden resp → NeverStored resp := by
  intro h
  have hforbidden : Forbidden (cacheControlResponse "private=\"x\"".toList) := by
    refine Or.inr (Or.inl ⟨⟨.ofText "private=\"x\"".toList, "private=\"x\"".toList⟩, ?_, ?_⟩)
    · decide +kernel
    · decide +kernel
  have hrefused := neverStored_iff_refused.1 (h _ hforbidden)
  exact absurd hrefused (by decide +kernel)

end Proxy
end Squiddish
