import Squiddish.Inflight.Reuse

/-!
# Variants — the `Vary` header and the key

The key has one header, `Accept-Encoding`, and a response whose `Vary` lists a name that could leak
the answer of one user to another is not stored.  So a hit agrees with the request it was stored
for on `Accept-Encoding`, and its `Vary` lists none of the sensitive names; all other names a
`Vary` may list, `User-Agent` among them, are left out of the key on purpose.
-/

namespace Squiddish
namespace Inflight

open Lib Cache

variable {ι : Type} {E : Env ι}

/-! ## The text of a key -/

/-- What `create_cache_key` feeds to the hash function. -/
def keyText (req : Request) : Bytes :=
  keyBytes req.method req.uri.text
    (((req.headers.filter (fun p => p.1 = "accept-encoding".toList))).map
      (fun p => (p.1, (HeaderValue.toStr p.2).getD [])))

theorem hash_key (E : Env ι) (c : ι) : (E.key c).hash = E.sha256 (keyText (E.request c)) :=
  rfl

/-- The `Accept-Encoding` lines of a request.  A value that is not text counts as empty. -/
def encodingLines (req : Request) : List HeaderValue :=
  (req.headers.getAll "accept-encoding".toList).map
    (fun v => if (HeaderValue.toStr v).isSome then v else [])

/-- What stands before the value of an `Accept-Encoding` line. -/
def encodingName : Bytes :=
  utf8Encode "accept-encoding".toList ++ utf8Encode [':']

theorem keyText_eq (req : Request) :
    keyText req = utf8Encode req.method ++ 0 :: utf8Encode req.uri.text ++
      ((encodingLines req).map (fun v => encodingName ++ v)).flatMap (fun x => 0 :: x) := by
  rw [keyText, keyBytes, encodingLines, HeaderMap.getAll]
  refine congrArg _ ?_
  rw [List.flatMap_map, List.map_map, List.map_map, List.flatMap_map]
  refine List.flatMap_congr ?_
  intro p hp
  have hname : p.1 = "accept-encoding".toList := of_decide_eq_true (List.mem_filter.1 hp).2
  have hvalue : utf8Encode ((HeaderValue.toStr p.2).getD []) =
      if (HeaderValue.toStr p.2).isSome then p.2 else [] := by
    cases htext : HeaderValue.toStr p.2 with
    | none =>
        rfl
    | some s =>
        exact (utf8Encode_of_toStr htext).1
  calc
    0 :: utf8Encode p.1 ++ utf8Encode [':'] ++ utf8Encode ((HeaderValue.toStr p.2).getD []) =
        0 :: (utf8Encode p.1 ++ utf8Encode [':'] ++
          utf8Encode ((HeaderValue.toStr p.2).getD [])) := rfl
    _ = 0 :: (encodingName ++ if (HeaderValue.toStr p.2).isSome then p.2 else []) := by
          rw [hname, hvalue, encodingName]

theorem zero_notMem_encodingLine {req : Request} {x : Bytes}
    (hx : x ∈ (encodingLines req).map (fun v => encodingName ++ v)) : 0 ∉ x := by
  have hname : 0 ∉ encodingName := by
    decide +kernel
  rcases List.mem_map.1 hx with ⟨v, hv, rfl⟩
  rcases List.mem_map.1 hv with ⟨w, -, rfl⟩
  have hvalue : 0 ∉ if (HeaderValue.toStr w).isSome then w else [] := by
    cases htext : HeaderValue.toStr w with
    | none =>
        exact List.not_mem_nil
    | some s =>
        exact (utf8Encode_of_toStr htext).2
  intro hzero
  exact (List.mem_append.1 hzero).elim hname hvalue

/-- The text of the key of a cacheable request tells its method and its encodings. -/
theorem encodingLines_of_keyText {req req' : Request}
    (hmethod : req.method = "GET".toList ∨ req.method = "HEAD".toList)
    (hmethod' : req'.method = "GET".toList ∨ req'.method = "HEAD".toList)
    (huri : req.uri.text = req'.uri.text) (h : keyText req = keyText req') :
    encodingLines req = encodingLines req' := by
  have hmethods : req.method = req'.method := by
    rw [keyText_eq, keyText_eq] at h
    -- the texts begin with the methods, and `GET` and `HEAD` differ in the first byte
    rcases hmethod with hget | hhead <;> rcases hmethod' with hget' | hhead'
    · exact hget.trans hget'.symm
    · simp [hget, hhead', utf8Encode, String.utf8EncodeChar] at h
    · simp [hhead, hget', utf8Encode, String.utf8EncodeChar] at h
    · exact hhead.trans hhead'.symm
  rw [keyText_eq, keyText_eq, hmethods, huri] at h
  -- no line contains the byte 0 that separates the lines
  have hlines := eq_of_flatMap_cons_eq (fun _ hx => zero_notMem_encodingLine hx)
    (fun _ hy => zero_notMem_encodingLine hy) (List.append_cancel_left h)
  exact List.map_injective_iff.2 (fun _ _ heq => List.append_cancel_left heq) hlines

/-! ## Hits -/

/-- A text `Vary` line of the stored headers lists the name, in any case. -/
def Listed (resp : Response) (name : Str) : Prop :=
  ∃ field ∈ (Proxy.filterHeaders resp.headers).items "vary".toList,
    eqIgnoreAsciiCase (trim field) name = true

/-- The names `should_cache_response` does not allow in `Vary`. -/
def sensitiveNames : List Str :=
  ["*".toList, "authorization".toList, "cookie".toList]

theorem not_listed_of_cacheable {resp : Response} (h : cacheable resp = true) {name : Str}
    (hname : name ∈ sensitiveNames) : ¬ Listed resp name := by
  rintro ⟨field, hfield, heq⟩
  have hvary : Proxy.hasToken (Proxy.filterHeaders resp.headers) "vary".toList sensitiveNames =
      true :=
    List.any_eq_true.2 ⟨field, hfield, List.any_eq_true.2 ⟨name, hname, heq⟩⟩
  have hnot : cacheable resp = false := by
    rw [cacheable, Proxy.shouldCacheResponse]
    exact Bool.and_eq_false_iff.2 (Or.inr (by simpa [sensitiveNames] using hvary))
  simp [h] at hnot

/-- How a stored answer to the request of `i` matches the request of `c`. -/
structure VariantMatches (E : Env ι) (c i : ι) (resp : Response) : Prop where
  sensitive : ∀ name ∈ sensitiveNames, ¬ Listed resp name
  encoding : encodingLines (E.request c) = encodingLines (E.request i)

/-- The hits of a state stem from stored answers, and match them when the keys are the same. -/
def VariantsMatch (E : Env ι) (s : State ι) : Prop :=
  ∀ c entry, (s.clients c).phase = .hit entry →
    (∃ i resp, StoredFor E s entry i resp ∧ (E.key i).hash = (E.key c).hash) ∧
      ∀ i resp, StoredFor E s entry i resp → E.key i = E.key c → VariantMatches E c i resp

/-- When the hash function has no collision among the requests, every hit matches the request it
was stored for. -/
theorem variantsMatch_of_run [DecidableEq ι] {s : State ι} {as : List (Action ι)}
    (hmethod : ∀ c, (E.request c).method = "GET".toList ∨ (E.request c).method = "HEAD".toList)
    (hcollision : ∀ c i, E.sha256 (keyText (E.request c)) = E.sha256 (keyText (E.request i)) →
      keyText (E.request c) = keyText (E.request i))
    (hrun : Run (Step E) .init as s) : VariantsMatch E s := by
  intro c entry hhit
  constructor
  · have hreusing : Reusing (fun _ _ _ => True) E s := by
      refine reusing_of_preserving (hrun.mono fun _ a _ hstep => ⟨hstep, ?_⟩)
      cases a <;> simp [Preserving]
    rcases hreusing.hit c entry hhit with ⟨i, resp, hfor, hhash, -⟩
    exact ⟨i, resp, hfor, hhash⟩
  · intro i resp hfor hkey
    -- stored answers are cacheable, so their `Vary` names none of the sensitive ones
    rcases hfor with ⟨_, _, _, _, hstored⟩
    refine ⟨fun name => not_listed_of_cacheable hstored.entry_eq.1, ?_⟩
    have htext := hcollision c i (by rw [← hash_key, ← hash_key, hkey])
    have huri : (E.request c).uri.text = (E.request i).uri.text :=
      (congrArg CacheKey.uri hkey).symm
    exact encodingLines_of_keyText (hmethod c) (hmethod i) huri htext

/-! ## Two runs -/

def gzipResponse : Response :=
  { status := 200, headers := [("vary".toList, .ofText "Accept-Encoding".toList)] }

/-- All clients accept the same encoding. -/
def gzipEnv : Env Nat :=
  { pageEnv (fun _ => [("accept-encoding".toList, .ofText "gzip".toList)]) with
    sha256 := exampleSha256 }

theorem variantsMatch_of_run_gzip :
    ∃ s : State Nat, VariantsMatch gzipEnv s ∧ (s.clients 1).status = some 200 := by
  have httl : Proxy.storedTtl gzipEnv.parseHttpDate gzipEnv.config 0
      "http://example.com/".toList (Proxy.filterHeaders gzipResponse.headers) =
        some (7 * 24 * 60 * 60) := by
    decide +kernel
  have hrun : Run (Step gzipEnv) .init
      [.lookup 0, .joinOrStart 0, .fetch 0, .respond 0 gzipResponse, .bodyEnd 0, .store 0 0,
        .lookup 1] _ :=
    .cons (.lookupMiss rfl rfl) <| .cons (.joinOrStart rfl) <| .cons (.fetch rfl rfl) <|
    .cons (.respond rfl rfl) <| .cons (.bodyEnd rfl rfl) <|
    .cons (.store (by decide) rfl rfl) <|
    .cons (.lookupStored rfl rfl rfl (by decide) httl) <| .nil _
  exact ⟨_, variantsMatch_of_run (fun _ => Or.inl rfl) (fun _ _ _ => rfl) hrun, rfl⟩

/-- Of other names nothing of the kind holds: the page varies on `Accept-Language`, and a client
that wants English hits the German page. -/
theorem not_variantsMatch_language :
    ¬ ∀ (E : Env Nat) (as : List (Action Nat)) (s : State Nat) (c i : Nat) (entry : CacheEntry)
      (resp : Response) (name : Str), Run (Step E) .init as s →
      (s.clients c).phase = .hit entry → StoredFor E s entry i resp → E.key i = E.key c →
      Listed resp name →
      (E.request c).headers.getAll name = (E.request i).headers.getAll name := by
  intro h
  let headers : Nat → HeaderMap := fun c =>
    [("accept-language".toList, .ofText (if c = 0 then "de" else "en").toList)]
  let resp : Response :=
    { status := 200, headers := [("vary".toList, .ofText "Accept-Language".toList)] }
  have httl : Proxy.storedTtl (pageEnv headers).parseHttpDate (pageEnv headers).config 0
      "http://example.com/".toList (Proxy.filterHeaders resp.headers) =
        some (7 * 24 * 60 * 60) := by
    decide +kernel
  have hrun : Run (Step (pageEnv headers)) .init
      [.lookup 0, .joinOrStart 0, .fetch 0, .respond 0 resp, .bodyEnd 0, .store 0 0,
        .lookup 1] _ :=
    .cons (.lookupMiss rfl rfl) <| .cons (.joinOrStart rfl) <| .cons (.fetch rfl rfl) <|
    .cons (.respond rfl rfl) <| .cons (.bodyEnd rfl rfl) <|
    .cons (.store (by decide) rfl rfl) <|
    .cons (.lookupStored rfl rfl rfl (by decide) httl) <| .nil _
  have hsame := h _ _ _ 1 0 _ resp "accept-language".toList hrun rfl
    ⟨0, _, rfl, rfl, by simp [TaskPhase.Over, TaskPhase.Reading], rfl, rfl, 0, by decide,
      State.stored_of_cacheable rfl (by decide) httl⟩ rfl
    ⟨"Accept-Language".toList, by decide, by decide⟩
  exact absurd hsame (by decide)

end Inflight
end Squiddish
