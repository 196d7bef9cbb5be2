import Squiddish.Inflight.Downloads
import Squiddish.Proxy.Forward

/-!
# Respond — the three ways to build a response

`forward_request_full` keeps the header map of upstream; `build_streaming_response` and
`build_response_from_cache` rebuild it from strings with a builder that checks every name and value.
On the headers of a legal response the builder never fails, and what is lost is lost before: a value
that is not text has become the empty string.
-/

namespace Squiddish
namespace Proxy

open Lib Cache Inflight

/-! ## The builder -/

/-- `StatusCode::from_u16`. -/
def statusFromU16 (n : Nat) : Option Nat :=
  if 100 ≤ n ∧ n < 1000 then some n else none

def isTokenChar (c : Char) : Bool :=
  c.isAlphanum || "!#$%&'*+-.^_`|~".toList.contains c

/-- A header name made of a text, in lower case. -/
def headerName (s : Str) : Except Str Str :=
  if s ≠ [] ∧ s.length < 2 ^ 16 ∧ s.all isTokenChar = true then
    .ok (toAsciiLowercase s)
  else
    .error "invalid HTTP header name".toList

/-- `HeaderValue::from_str`: no control characters but the tab. -/
def headerValue (s : Str) : Except Str HeaderValue :=
  if (utf8Encode s).all (fun b => (32 ≤ b && b != 127) || b == 9) = true then
    .ok (utf8Encode s)
  else
    .error "failed to parse header value".toList

/-- The head of a response. -/
structure Head where
  status : Nat
  headers : HeaderMap
  deriving DecidableEq, Repr

/-- `response::Builder`: the head so far, or the text of the first error. -/
abbrev Builder := Except Str Head

namespace Builder

/-- `Response::builder().status(status)`. -/
def withStatus (status : Nat) : Builder :=
  .ok { status := status, headers := [] }

def header (builder : Builder) (name value : Str) : Builder := do
  let head ← builder
  let n ← headerName name
  let v ← headerValue value
  return { head with headers := head.headers.append n v }

def headers (builder : Builder) (lines : List (Str × Str)) : Builder :=
  lines.foldl (fun builder line => builder.header line.1 line.2) builder

end Builder

/-! ## The responses -/

structure FullResponse where
  status : Nat
  headers : HeaderMap
  body : Bytes
  deriving DecidableEq, Repr

/-- The loop of `collect_body` over the data frames of a body. -/
def collectBody (maxSize : Nat) : List Bytes → Bytes → Outcome Bytes
  | [], collected => .ok collected
  | chunk :: frames, collected =>
      if maxSize < collected.length + chunk.length then
        .error (.error (.validationFailed "Body too large".toList))
      else
        collectBody maxSize frames (collected ++ chunk)

/-- What `forward_request_full` returns when upstream answers `resp` with these data frames. -/
def forwardRequestFull (maxBodySize : Nat) (resp : Response) (frames : List Bytes) :
    Outcome FullResponse := do
  let body ← collectBody maxBodySize frames []
  return { status := resp.status
           headers := (filterHeaders resp.headers).append "via".toList viaValue
           body := body }

/-- The head `build_streaming_response` sends before its body. -/
def buildStreamingResponse (m : ResponseMeta) : Outcome Head :=
  let builder := Builder.withStatus ((statusFromU16 m.status).getD 200)
  let builder := builder.headers m.headers
  match builder.header "via".toList "1.1 squiddish".toList with
  | .ok head => .ok head
  | .error text => .error (.error (.http text))

/-- `build_response_from_cache` at the time `now`. -/
def buildResponseFromCache (entry : CacheEntry) (now : Nat) : FullResponse :=
  let builder := Builder.withStatus ((statusFromU16 entry.status).getD 200)
  let builder := builder.headers entry.headers
  let builder := builder.header "x-cache".toList "HIT".toList
  let builder := builder.header "via".toList "1.1 squiddish".toList
  let builder :=
    match elapsedSecs entry.timestamp now with
    | some elapsed =>
        builder.header "x-cache-ttl".toList (toString (entry.ttlSeconds - elapsed)).toList
    -- the clock stands before the time of the entry
    | none => builder
  match builder with
  | .ok head => { status := head.status, headers := head.headers, body := entry.data }
  | .error _ => { status := 200, headers := [], body := [] }

/-! ## The builder on legal headers -/

/-- The names and the status of the response are such as upstream's messages have. -/
structure Legal (resp : Response) : Prop where
  names : ∀ p ∈ resp.headers, headerName p.1 = .ok p.1
  status : 100 ≤ resp.status ∧ resp.status < 1000

/-- The value that is left of a header value when it is kept as a string. -/
def textOrEmpty (v : HeaderValue) : HeaderValue :=
  if (HeaderValue.toStr v).isSome then v else []

/-- The headers that are left when they are kept as strings. -/
def textHeaders (headers : HeaderMap) : HeaderMap :=
  headers.map (fun p => (p.1, textOrEmpty p.2))

theorem headerValue_toStr (v : HeaderValue) :
    headerValue ((HeaderValue.toStr v).getD []) = .ok (textOrEmpty v) := by
  cases htext : HeaderValue.toStr v with
  | none =>
      simp [headerValue, textOrEmpty, htext, utf8Encode]
  | some s =>
      have hencode : utf8Encode s = v := (utf8Encode_of_toStr htext).1
      have hvalid : v.all (fun b => (32 ≤ b && b != 127) || b == 9) = true := by
        refine List.all_eq_true.2 ?_
        intro b hb
        have htextual := (HeaderValue.toStr_eq_some htext).1 b hb
        -- what `to_str` accepts is visible ASCII or the tab, and both are legal in a value
        rcases Bool.or_eq_true_iff.1 htextual with hvisible | htab
        · have hne : b ≠ 127 := by
            rintro rfl
            simp at hvisible
          have hle : 32 ≤ b := (by simpa using hvisible : 32 ≤ b ∧ b < 127).1
          simp [hle, hne]
        · simp [htab]
      simp [headerValue, textOrEmpty, htext, hencode, hvalid]

theorem Builder.headers_headersVec {status : Nat} {before h : HeaderMap}
    (hnames : ∀ p ∈ h, headerName p.1 = .ok p.1) :
    Builder.headers (.ok { status := status, headers := before }) (headersVec h) =
      .ok { status := status, headers := before ++ textHeaders h } := by
  induction h generalizing before with
  | nil =>
      simp [Builder.headers, headersVec, textHeaders]
  | cons p h ih =>
      have hline : Builder.header (.ok { status := status, headers := before }) p.1
          ((HeaderValue.toStr p.2).getD []) =
            .ok { status := status, headers := before ++ [(p.1, textOrEmpty p.2)] } := by
        simp only [Builder.header, hnames p List.mem_cons_self, headerValue_toStr]
        rfl
      calc
        Builder.headers (.ok { status := status, headers := before }) (headersVec (p :: h)) =
            Builder.headers (Builder.header (.ok { status := status, headers := before }) p.1
              ((HeaderValue.toStr p.2).getD [])) (headersVec h) := rfl
        _ = .ok { status := status
                  headers := before ++ [(p.1, textOrEmpty p.2)] ++ textHeaders h } := by
              rw [hline, ih fun q hq => hnames q (List.mem_cons_of_mem _ hq)]
        _ = .ok { status := status, headers := before ++ textHeaders (p :: h) } := by
              simp [textHeaders]

theorem Legal.filtered {resp : Response} (h : Legal resp) :
    ∀ p ∈ filterHeaders resp.headers, headerName p.1 = .ok p.1 := by
  intro p hp
  rw [filterHeaders_eq_filter] at hp
  exact h.names p (List.mem_of_mem_filter hp)

theorem header_via (head : Head) :
    Builder.header (.ok head) "via".toList "1.1 squiddish".toList =
      .ok { head with headers := head.headers.append "via".toList viaValue } := by
  have hname : headerName "via".toList = .ok "via".toList := by
    decide +kernel
  have hvalue : headerValue "1.1 squiddish".toList = .ok viaValue := by
    decide +kernel
  simp only [Builder.header, hname, hvalue]
  rfl

theorem header_cache (head : Head) :
    Builder.header (.ok head) "x-cache".toList "HIT".toList =
      .ok { head with headers := head.headers.append "x-cache".toList (.ofText "HIT".toList) } := by
  have hname : headerName "x-cache".toList = .ok "x-cache".toList := by
    decide +kernel
  have hvalue : headerValue "HIT".toList = .ok (.ofText "HIT".toList) := by
    decide +kernel
  simp only [Builder.header, hname, hvalue]
  rfl

/-- A number is a header value. -/
theorem headerValue_toString (n : Nat) : ∃ v, headerValue (toString n).toList = .ok v := by
  refine ⟨utf8Encode (toString n).toList, if_pos (List.all_eq_true.2 ?_)⟩
  intro b hb
  rcases List.mem_flatMap.1 hb with ⟨c, hc, hbc⟩
  have hdigit : c.isDigit = true :=
    Nat.isDigit_of_mem_toDigits (b := 10) (n := n) (by decide) (by decide) (by simpa using hc)
  have hrange : 48 ≤ c.toNat ∧ c.toNat ≤ 57 := Char.isDigit_iff_toNat.1 hdigit
  have hlt : c.val.toNat < 128 := hrange.2.trans_lt (by decide)
  have hsize : c.utf8Size = 1 := by
    rw [Char.utf8Size_eq_one_iff, UInt32.le_iff_toNat_le]
    exact Nat.le_of_lt_succ hlt
  have hb' : b = c.toNat.toUInt8 := by
    rw [String.utf8EncodeChar_eq_singleton hsize] at hbc
    exact List.mem_singleton.1 hbc
  have hnat : b.toNat = c.toNat := by
    rw [hb']
    exact Nat.mod_eq_of_lt (hrange.2.trans_lt (by decide))
  have hle : 32 ≤ b := by
    rw [UInt8.le_iff_toNat_le, hnat]
    exact le_trans (by decide) hrange.1
  have hne : b ≠ 127 := by
    rintro rfl
    have : c.toNat = 127 := hnat.symm
    omega
  simp [hle, hne]

theorem header_ttl (head : Head) (ttl : Nat) :
    ∃ v, Builder.header (.ok head) "x-cache-ttl".toList (toString ttl).toList =
      .ok { head with headers := head.headers.append "x-cache-ttl".toList v } := by
  have hname : headerName "x-cache-ttl".toList = .ok "x-cache-ttl".toList := by
    decide +kernel
  rcases headerValue_toString ttl with ⟨v, hv⟩
  refine ⟨v, ?_⟩
  simp only [Builder.header, hname, hv]
  rfl

/-- The head that is streamed for a legal response. -/
theorem buildStreamingResponse_legal {resp : Response} (h : Legal resp) :
    buildStreamingResponse
        { status := resp.status, headers := headersVec (filterHeaders resp.headers) } =
      .ok { status := resp.status
            headers :=
              (textHeaders (filterHeaders resp.headers)).append "via".toList viaValue } := by
  simp only [buildStreamingResponse, Builder.withStatus, statusFromU16, if_pos h.status,
    Option.getD_some, Builder.headers_headersVec h.filtered, header_via, List.nil_append]

/-- The names of the lines that are added to a hit. -/
def cacheHeaderNames : List Str :=
  ["x-cache".toList, "x-cache-ttl".toList]

/-- The response that is built from the entry of a legal response. -/
theorem buildResponseFromCache_legal {resp : Response} (h : Legal resp) {entry : CacheEntry}
    (hstatus : entry.status = resp.status)
    (hheaders : entry.headers = headersVec (filterHeaders resp.headers)) (now : Nat) :
    ∃ ttl : HeaderMap, (∀ p ∈ ttl, p.1 = "x-cache-ttl".toList) ∧
      buildResponseFromCache entry now =
        { status := resp.status
          headers :=
            ((textHeaders (filterHeaders resp.headers)).append "x-cache".toList
              (.ofText "HIT".toList)).append "via".toList viaValue ++ ttl
          body := entry.data } := by
  cases helapsed : elapsedSecs entry.timestamp now with
  | none =>
      refine ⟨[], by simp, ?_⟩
      simp only [buildResponseFromCache, hstatus, hheaders, Builder.withStatus, statusFromU16,
        if_pos h.status, Option.getD_some, Builder.headers_headersVec h.filtered, header_cache,
        header_via, helapsed, List.nil_append, List.append_nil]
  | some elapsed =>
      rcases header_ttl
        { status := resp.status
          headers := ((textHeaders (filterHeaders resp.headers)).append "x-cache".toList
            (.ofText "HIT".toList)).append "via".toList viaValue }
        (entry.ttlSeconds - elapsed) with ⟨v, hv⟩
      refine ⟨[("x-cache-ttl".toList, v)], by simp, ?_⟩
      simp only [buildResponseFromCache, hstatus, hheaders, Builder.withStatus, statusFromU16,
        if_pos h.status, Option.getD_some, Builder.headers_headersVec h.filtered, header_cache,
        header_via, helapsed, List.nil_append, hv]
      rfl

/-! ## The same headers -/

/-- The lines of every name are those of `full`, apart from the cache headers that are added. -/
def SameHeaders (headers full : HeaderMap) : Prop :=
  ∃ added : HeaderMap, (∀ p ∈ added, p.1 ∈ cacheHeaderNames) ∧
    ∀ name, headers.getAll name = full.getAll name ++ added.getAll name

/-- Every end-to-end header value of the response is a text. -/
def TextOnly (resp : Response) : Prop :=
  ∀ p ∈ filterHeaders resp.headers, (HeaderValue.toStr p.2).isSome = true

theorem getAll_concat (h h' : HeaderMap) (name : Str) :
    HeaderMap.getAll (h ++ h') name = h.getAll name ++ h'.getAll name := by
  simp [HeaderMap.getAll]

theorem textHeaders_of_textOnly {resp : Response} (h : TextOnly resp) :
    textHeaders (filterHeaders resp.headers) = filterHeaders resp.headers := by
  refine (List.map_congr_left ?_).trans (List.map_id _)
  intro p hp
  simp [textOrEmpty, h p hp]

theorem getAll_textHeaders (h : HeaderMap) (name : Str) :
    (textHeaders h).getAll name = (h.getAll name).map textOrEmpty := by
  simp [textHeaders, HeaderMap.getAll, List.filter_map, Function.comp_def]

/-- A value that was lost is missed. -/
theorem textOnly_of_sameHeaders {resp : Response} {rest : HeaderMap}
    (h : SameHeaders (textHeaders (filterHeaders resp.headers) ++ rest)
      ((filterHeaders resp.headers).append "via".toList viaValue)) : TextOnly resp := by
  rcases h with ⟨added, -, hsame⟩
  intro p hp
  have hlines := hsame p.1
  rw [getAll_concat, getAll_textHeaders, HeaderMap.append, getAll_concat, List.append_assoc]
    at hlines
  -- as many lines on both sides, so the values agree one by one
  have hmap := (List.append_inj hlines (List.length_map _)).1
  have hmem : p.2 ∈ (filterHeaders resp.headers).getAll p.1 :=
    List.mem_map.2 ⟨p, List.mem_filter.2 ⟨hp, by simp⟩, rfl⟩
  have hkept : textOrEmpty p.2 = p.2 := by
    refine List.map_inj_left.1 (hmap.trans (List.map_id _).symm) p.2 hmem
  by_contra hnot
  have hnone : HeaderValue.toStr p.2 = none := by
    simpa using hnot
  -- a value that was lost is empty now, and it was not before
  have hempty : p.2 = [] := by
    simpa [textOrEmpty, hnone] using hkept.symm
  exact HeaderValue.ne_nil_of_toStr_eq_none hnone hempty

/-- What is streamed has the headers of the full response exactly when they are all text. -/
theorem sameHeaders_streamed_iff {resp : Response} :
    SameHeaders ((textHeaders (filterHeaders resp.headers)).append "via".toList viaValue)
      ((filterHeaders resp.headers).append "via".toList viaValue) ↔ TextOnly resp := by
  constructor
  · exact textOnly_of_sameHeaders
  · intro h
    rw [textHeaders_of_textOnly h]
    exact ⟨[], by simp, by simp [HeaderMap.getAll]⟩

/-- So does a hit. -/
theorem sameHeaders_hit_iff {resp : Response} {ttl : HeaderMap}
    (httl : ∀ p ∈ ttl, p.1 = "x-cache-ttl".toList) :
    SameHeaders
      (((textHeaders (filterHeaders resp.headers)).append "x-cache".toList
        (.ofText "HIT".toList)).append "via".toList viaValue ++ ttl)
      ((filterHeaders resp.headers).append "via".toList viaValue) ↔ TextOnly resp := by
  constructor
  · intro h
    rw [HeaderMap.append, HeaderMap.append, List.append_assoc, List.append_assoc] at h
    exact textOnly_of_sameHeaders h
  · intro h
    rw [textHeaders_of_textOnly h]
    refine ⟨("x-cache".toList, .ofText "HIT".toList) :: ttl, ?_, ?_⟩
    · intro p hp
      rcases List.mem_cons.1 hp with rfl | hp
      · exact List.mem_cons_self
      · exact List.mem_cons_of_mem _ (List.mem_singleton.2 (httl p hp))
    · -- the line that tells of the hit stands before `Via`, which is another name
      intro name
      have hcons : HeaderMap.getAll (("x-cache".toList, .ofText "HIT".toList) :: ttl) name =
          HeaderMap.getAll [("x-cache".toList, .ofText "HIT".toList)] name ++
            HeaderMap.getAll ttl name :=
        getAll_concat [("x-cache".toList, .ofText "HIT".toList)] ttl name
      rw [hcons, getAll_concat, getAll_append, getAll_append, getAll_append]
      by_cases hvia : "via".toList = name
      · subst hvia
        have hcache : HeaderMap.getAll [("x-cache".toList, .ofText "HIT".toList)] "via".toList =
            [] := by
          decide
        have hne : "x-cache".toList ≠ "via".toList := by
          decide
        rw [hcache, if_neg hne, List.append_nil, List.nil_append]
      · rw [if_neg hvia, List.append_nil, List.append_nil, List.append_assoc]
        refine congrArg _ (congrArg (fun lines => lines ++ HeaderMap.getAll ttl name) ?_)
        exact (getAll_append [] "x-cache".toList name (.ofText "HIT".toList)).symm

/-! ## The same body -/

/-- A body within the limit is collected as it is. -/
theorem collectBody_of_le {maxSize : Nat} {frames : List Bytes} {collected : Bytes}
    (h : collected.length + frames.flatten.length ≤ maxSize) :
    collectBody maxSize frames collected = .ok (collected ++ frames.flatten) := by
  induction frames generalizing collected with
  | nil =>
      simp [collectBody]
  | cons chunk frames ih =>
      rw [List.flatten_cons, List.length_append, ← Nat.add_assoc] at h
      have hfits : ¬ maxSize < collected.length + chunk.length :=
        Nat.not_lt.2 ((Nat.le_add_right _ _).trans h)
      have hrest : (collected ++ chunk).length + frames.flatten.length ≤ maxSize := by
        rwa [List.length_append]
      calc
        collectBody maxSize (chunk :: frames) collected =
            collectBody maxSize frames (collected ++ chunk) := if_neg hfits
        _ = .ok (collected ++ chunk ++ frames.flatten) := ih hrest
        _ = .ok (collected ++ (chunk :: frames).flatten) := by
              rw [List.append_assoc, List.flatten_cons]

theorem forwardRequestFull_of_le {maxBodySize : Nat} {resp : Response} {frames : List Bytes}
    (h : frames.flatten.length ≤ maxBodySize) :
    forwardRequestFull maxBodySize resp frames =
      .ok { status := resp.status
            headers := (filterHeaders resp.headers).append "via".toList viaValue
            body := frames.flatten } := by
  rw [forwardRequestFull, collectBody_of_le (by simpa using h)]
  rfl

end Proxy
end Squiddish
