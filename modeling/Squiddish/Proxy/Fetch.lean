import Squiddish.Proxy.Respond

/-!
# Fetch — `fetch_and_stream`

The background task of a download: it sends the request upstream, publishes the headers, passes the
body on chunk by chunk and stores it at the end.  A run is given by what the body answers at every
poll, and it leaves the trace of its calls into the cache.

`fetchAndStream_stores` is the contract of the loop: it stores what it delivered, or nothing.
-/

namespace Squiddish
namespace Proxy

open Lib Cache Inflight

/-! ## Bodies -/

inductive Frame
  | data (bytes : Bytes)
  /-- A frame without data. -/
  | trailers
  deriving DecidableEq, Repr

/-- The data of a frame, if it has any. -/
def Frame.dataBytes : Frame → Bytes
  | .data bytes => bytes
  | .trailers => []

/-- One answer of `body.frame()` under a timeout.  After the last answer the body is complete. -/
inductive Answer
  | frame (frame : Frame)
  | error (text : Str)
  | timedOut
  deriving DecidableEq, Repr

def Answer.dataBytes : Answer → Bytes
  | .frame f => f.dataBytes
  | _ => []

/-- The concatenated data of a body. -/
def bodyOf (answers : List Answer) : Bytes :=
  answers.flatMap Answer.dataBytes

/-- The body ended without an error. -/
def Complete (answers : List Answer) : Prop :=
  ∀ answer ∈ answers, ∃ frame, answer = .frame frame

/-- `collect_body`. -/
def collectFrames (maxSize : Nat) : List (Except Str Frame) → Bytes → Outcome Bytes
  | [], collected => .ok collected
  | .error text :: _, _ => .error (.error (.hyper text))
  | .ok (.data chunk) :: frames, collected =>
      if maxSize < collected.length + chunk.length then
        .error (.error (.validationFailed "Body too large".toList))
      else
        collectFrames maxSize frames (collected ++ chunk)
  | .ok .trailers :: frames, collected => collectFrames maxSize frames collected

/-- The loop of `fetch_and_stream`: what it returns, and the chunks it passed to `add_chunk`.

The chunks of a download are all in memory at once, so no sum of their lengths reaches `2 ^ 64`. -/
def readBody (maxBodySize : Nat) (cacheable : Bool) :
    List Answer → Bytes → Nat → Except ProxyError Bytes × List Bytes
  | [], cacheBuf, _ => (.ok cacheBuf, [])
  | .timedOut :: _, _, _ => (.error (.network "Upstream body read timed out".toList), [])
  | .error text :: _, _, _ => (.error (.hyper text), [])
  | .frame .trailers :: answers, cacheBuf, totalSize =>
      readBody maxBodySize cacheable answers cacheBuf totalSize
  | .frame (.data chunk) :: answers, cacheBuf, totalSize =>
      if maxBodySize < totalSize + chunk.length then
        (.error (.validationFailed "Response body too large".toList), [])
      else
        let r := readBody maxBodySize cacheable answers
          (if cacheable then cacheBuf ++ chunk else cacheBuf) (totalSize + chunk.length)
        (r.1, chunk :: r.2)

/-! ## The task -/

/-- The arguments of a call of `cache.put`. -/
structure PutCall where
  key : CacheKey
  data : Bytes
  headers : List (Str × Str)
  status : Nat
  timestamp : Nat
  ttlSeconds : Nat
  deriving DecidableEq, Repr

/-- A call into the cache. -/
inductive Effect
  | setResponseMeta (m : ResponseMeta)
  | addChunk (bytes : Bytes)
  | put (call : PutCall)
  deriving DecidableEq, Repr

/-- The chunks passed to `add_chunk`. -/
def chunksOf (effects : List Effect) : List Bytes :=
  effects.filterMap (fun
    | .addChunk bytes => some bytes
    | _ => none)

/-- The calls of `cache.put`. -/
def putsOf (effects : List Effect) : List PutCall :=
  effects.filterMap (fun
    | .put call => some call
    | _ => none)

/-- The calls up to the end of the body. -/
def loopEffects (m : ResponseMeta) (chunks : List Bytes) : List Effect :=
  .setResponseMeta m :: chunks.map .addChunk

/-- `fetch_and_stream` from the response on: `now` is the time when its headers are read for a
lifetime, and `later` the time when the entry is made.  An error of `cache.put` is only logged. -/
def streamResponse (parseHttpDate : Str → Option Nat) (config : Config) (key : CacheKey)
    (now later : Nat) (resp : Response) (answers : List Answer) :
    Except ProxyError Unit × List Effect :=
  let responseHeaders := filterHeaders resp.headers
  let cacheable := shouldCacheResponse resp.status responseHeaders
  let r := readBody config.security.maxBodySize cacheable answers [] 0
  let effects :=
    loopEffects { status := resp.status, headers := headersVec responseHeaders } r.2
  match r.1 with
  | .error e => (.error e, effects)
  | .ok cacheBuf =>
      if !cacheable then
        (.ok (), effects)
      else
        match storedTtl parseHttpDate config now key.uri responseHeaders with
        | none => (.ok (), effects)
        | some ttl =>
            (.ok (), effects ++
              [.put { key := key
                      data := cacheBuf
                      headers := headersVec responseHeaders
                      status := resp.status
                      timestamp := later
                      ttlSeconds := ttl }])

/-- `fetch_and_stream`: `fetch` sends the request and its collected body upstream. -/
def fetchAndStream (parseHttpDate : Str → Option Nat) (config : Config)
    (fetch : Request → Bytes → Except ProxyError (Response × List Answer)) (key : CacheKey)
    (now later : Nat) (req : Request) (body : List (Except Str Frame)) :
    Outcome Unit × List Effect :=
  match collectFrames config.security.maxBodySize body [] with
  | .error e => (.error e, [])
  | .ok bodyBytes =>
      match fetch (newReq req) bodyBytes with
      | .error e => (.error (.error e), [])
      | .ok (resp, answers) =>
          let r := streamResponse parseHttpDate config key now later resp answers
          (r.1.mapError .error, r.2)

/-! ## The loop -/

section Loop

variable {maxBodySize : Nat} {cacheable : Bool}

theorem bodyOf_cons (answer : Answer) (answers : List Answer) :
    bodyOf (answer :: answers) = answer.dataBytes ++ bodyOf answers := by
  simp [bodyOf]

theorem Complete.tail {answer : Answer} {answers : List Answer}
    (h : Complete (answer :: answers)) : Complete answers :=
  fun a ha => h a (List.mem_cons_of_mem _ ha)

theorem complete_cons_frame {frame : Frame} {answers : List Answer} :
    Complete (.frame frame :: answers) ↔ Complete answers := by
  constructor
  · exact Complete.tail
  · intro h answer hanswer
    rcases List.mem_cons.1 hanswer with rfl | hmem
    · exact ⟨frame, rfl⟩
    · exact h answer hmem

theorem not_complete_cons_error {text : Str} {answers : List Answer} :
    ¬ Complete (.error text :: answers) := by
  intro h
  obtain ⟨f, hf⟩ := h _ List.mem_cons_self
  cases hf

theorem not_complete_cons_timedOut {answers : List Answer} :
    ¬ Complete (.timedOut :: answers) := by
  intro h
  obtain ⟨f, hf⟩ := h _ List.mem_cons_self
  cases hf

/-- The loop returns its buffer exactly when the body is complete and not too long. -/
theorem readBody_eq_ok_iff {answers : List Answer} {cacheBuf buf : Bytes} {totalSize : Nat}
    (hfits : totalSize ≤ maxBodySize) :
    (readBody maxBodySize cacheable answers cacheBuf totalSize).1 = .ok buf ↔
      Complete answers ∧ totalSize + (bodyOf answers).length ≤ maxBodySize ∧
        buf = if cacheable then cacheBuf ++ bodyOf answers else cacheBuf := by
  induction answers generalizing cacheBuf totalSize with
  | nil =>
      have hcomplete : Complete [] := fun a ha => by cases ha
      simp [readBody, bodyOf, hcomplete, hfits, eq_comm]
  | cons answer answers ih =>
      cases answer with
      | timedOut =>
          simp [readBody, not_complete_cons_timedOut]
      | error text =>
          simp [readBody, not_complete_cons_error]
      | frame f =>
          rw [complete_cons_frame, bodyOf_cons]
          cases f with
          | trailers =>
              simpa [readBody, Answer.dataBytes, Frame.dataBytes] using ih hfits
          | data chunk =>
              by_cases hbig : maxBodySize < totalSize + chunk.length
              · simp [readBody, hbig, Answer.dataBytes, Frame.dataBytes]
                omega
              · have hrec := @ih (if cacheable then cacheBuf ++ chunk else cacheBuf) _
                  (Nat.le_of_not_lt hbig)
                cases cacheable <;>
                  simpa [readBody, hbig, Answer.dataBytes, Frame.dataBytes, Nat.add_assoc]
                    using hrec

/-- A complete body that is not too long is read to its end. -/
theorem readBody_of_complete {answers : List Answer} (h : Complete answers)
    (hfits : (bodyOf answers).length ≤ maxBodySize) :
    (readBody maxBodySize cacheable answers [] 0).1 =
      .ok (if cacheable then bodyOf answers else []) :=
  (readBody_eq_ok_iff (Nat.zero_le _)).2 ⟨h, by simpa using hfits, rfl⟩

/-- Whatever the body does, no more than the limit is passed on. -/
theorem length_chunks_readBody_le {answers : List Answer} {cacheBuf : Bytes} {totalSize : Nat}
    (hfits : totalSize ≤ maxBodySize) :
    totalSize + (readBody maxBodySize cacheable answers cacheBuf totalSize).2.flatten.length ≤
      maxBodySize := by
  induction answers generalizing cacheBuf totalSize with
  | nil =>
      simpa [readBody] using hfits
  | cons answer answers ih =>
      cases answer with
      | timedOut =>
          simpa [readBody] using hfits
      | error text =>
          simpa [readBody] using hfits
      | frame f =>
          cases f with
          | trailers =>
              exact ih hfits
          | data chunk =>
              by_cases hbig : maxBodySize < totalSize + chunk.length
              · simpa [readBody, hbig] using hfits
              · have hrec := @ih (if cacheable then cacheBuf ++ chunk else cacheBuf) _
                  (Nat.le_of_not_lt hbig)
                simpa [readBody, hbig, Nat.add_assoc] using hrec

/-- When the loop returns its buffer, all data was passed on. -/
theorem chunks_readBody_of_ok {answers : List Answer} {cacheBuf buf : Bytes} {totalSize : Nat}
    (h : (readBody maxBodySize cacheable answers cacheBuf totalSize).1 = .ok buf) :
    (readBody maxBodySize cacheable answers cacheBuf totalSize).2.flatten = bodyOf answers := by
  induction answers generalizing cacheBuf totalSize with
  | nil =>
      rfl
  | cons answer answers ih =>
      cases answer with
      | timedOut =>
          simp [readBody] at h
      | error text =>
          simp [readBody] at h
      | frame f =>
          rw [bodyOf_cons]
          cases f with
          | trailers =>
              exact ih h
          | data chunk =>
              by_cases hbig : maxBodySize < totalSize + chunk.length
              · simp [readBody, hbig] at h
              · have hrec : (readBody maxBodySize cacheable answers
                    (if cacheable then cacheBuf ++ chunk else cacheBuf)
                    (totalSize + chunk.length)).1 = .ok buf := by
                  simpa [readBody, hbig] using h
                simp [readBody, hbig, ih hrec, Answer.dataBytes, Frame.dataBytes]

/-- The answers of a body that is read without a timeout. -/
def ofFrame : Except Str Frame → Answer
  | .ok f => .frame f
  | .error text => .error text

/-- `collect_body` accepts the bodies that are complete and not too long. -/
theorem collectFrames_eq_ok_iff {maxSize : Nat} {frames : List (Except Str Frame)}
    {collected body : Bytes} (hfits : collected.length ≤ maxSize) :
    collectFrames maxSize frames collected = .ok body ↔
      Complete (frames.map ofFrame) ∧
        collected.length + (bodyOf (frames.map ofFrame)).length ≤ maxSize ∧
        body = collected ++ bodyOf (frames.map ofFrame) := by
  induction frames generalizing collected with
  | nil =>
      have hcomplete : Complete [] := fun a ha => by cases ha
      simp [collectFrames, bodyOf, hcomplete, hfits, eq_comm]
  | cons frame frames ih =>
      rw [List.map_cons]
      cases frame with
      | error text =>
          simp [collectFrames, ofFrame, not_complete_cons_error]
      | ok f =>
          rw [ofFrame, complete_cons_frame, bodyOf_cons]
          cases f with
          | trailers =>
              simpa [collectFrames, Answer.dataBytes, Frame.dataBytes] using ih hfits
          | data chunk =>
              by_cases hbig : maxSize < collected.length + chunk.length
              · simp [collectFrames, hbig, Answer.dataBytes, Frame.dataBytes]
                omega
              · have hrec := @ih (collected ++ chunk)
                  (by simpa using Nat.le_of_not_lt hbig)
                simpa [collectFrames, hbig, Answer.dataBytes, Frame.dataBytes, Nat.add_assoc]
                  using hrec

/-- On data frames alone it is the loop over the data frames. -/
theorem collectFrames_map_data (maxSize : Nat) (frames : List Bytes) (collected : Bytes) :
    collectFrames maxSize (frames.map (fun b => .ok (.data b))) collected =
      collectBody maxSize frames collected := by
  induction frames generalizing collected with
  | nil =>
      rfl
  | cons chunk frames ih =>
      simp only [List.map_cons, collectFrames, collectBody, ih]

end Loop

/-! ## What is stored -/

section Stored

variable {parseHttpDate : Str → Option Nat} {config : Config} {key : CacheKey} {now later : Nat}
  {resp : Response} {answers : List Answer}

@[simp] theorem chunksOf_append (xs ys : List Effect) :
    chunksOf (xs ++ ys) = chunksOf xs ++ chunksOf ys := by
  simp [chunksOf]

@[simp] theorem putsOf_append (xs ys : List Effect) :
    putsOf (xs ++ ys) = putsOf xs ++ putsOf ys := by
  simp [putsOf]

@[simp] theorem chunksOf_loopEffects (m : ResponseMeta) (chunks : List Bytes) :
    chunksOf (loopEffects m chunks) = chunks := by
  simp [chunksOf, loopEffects, List.filterMap_map]

@[simp] theorem putsOf_loopEffects (m : ResponseMeta) (chunks : List Bytes) :
    putsOf (loopEffects m chunks) = [] := by
  simp [putsOf, loopEffects, List.filterMap_map]

/-- There is no lifetime only when the path is not that of APT and the headers say zero. -/
theorem storedTtl_eq_none_iff {uri : Str} {headers : HeaderMap} :
    storedTtl parseHttpDate config now uri headers = none ↔
      (config.apt.enabled && isAptRequest uri) = false ∧
        parseCacheControlHeaders parseHttpDate now headers = some 0 := by
  unfold storedTtl
  cases hapt : config.apt.enabled && isAptRequest uri with
  | true =>
      by_cases hfile : isAptPackageFile uri = true <;>
        by_cases hlist : isAptPackageList uri = true <;> simp [hfile, hlist]
  | false =>
      cases hparse : parseCacheControlHeaders parseHttpDate now headers with
      | none =>
          simp
      | some ttl =>
          cases ttl <;> simp

/-- When a response is stored. -/
structure Storable (parseHttpDate : Str → Option Nat) (config : Config) (key : CacheKey)
    (now : Nat) (resp : Response) (answers : List Answer) : Prop where
  cacheable : shouldCacheResponse resp.status (filterHeaders resp.headers) = true
  complete : Complete answers
  fits : (bodyOf answers).length ≤ config.security.maxBodySize
  lives : ¬ ((config.apt.enabled && isAptRequest key.uri) = false ∧
    parseCacheControlHeaders parseHttpDate now (filterHeaders resp.headers) = some 0)

/-- The call that stores a body for the lifetime `ttl`. -/
def putCall (key : CacheKey) (later : Nat) (resp : Response) (answers : List Answer) (ttl : Nat) :
    PutCall :=
  { key := key
    data := bodyOf answers
    headers := headersVec (filterHeaders resp.headers)
    status := resp.status
    timestamp := later
    ttlSeconds := ttl }

variable (config resp answers) in
/-- The calls up to the end of this body. -/
def bodyEffects : List Effect :=
  loopEffects
    { status := resp.status, headers := headersVec (filterHeaders resp.headers) }
    (readBody config.security.maxBodySize
      (shouldCacheResponse resp.status (filterHeaders resp.headers)) answers [] 0).2

variable (later) in
/-- A response that is stored is stored at the end. -/
theorem effects_of_storable (h : Storable parseHttpDate config key now resp answers) :
    ∃ ttl, storedTtl parseHttpDate config now key.uri (filterHeaders resp.headers) = some ttl ∧
      (streamResponse parseHttpDate config key now later resp answers).2 =
        bodyEffects config resp answers ++ [.put (putCall key later resp answers ttl)] := by
  obtain ⟨ttl, httl⟩ := Option.ne_none_iff_exists'.1 (mt storedTtl_eq_none_iff.1 h.lives)
  refine ⟨ttl, httl, ?_⟩
  have hread : (readBody config.security.maxBodySize true answers [] 0).1 =
      .ok (bodyOf answers) := readBody_of_complete h.complete h.fits
  simp [streamResponse, bodyEffects, h.cacheable, hread, httl, putCall]

variable (later) in
theorem effects_of_not_storable (h : ¬ Storable parseHttpDate config key now resp answers) :
    (streamResponse parseHttpDate config key now later resp answers).2 =
      bodyEffects config resp answers := by
  cases hcacheable : shouldCacheResponse resp.status (filterHeaders resp.headers) with
  | false =>
      cases hread : (readBody config.security.maxBodySize false answers [] 0).1 <;>
        simp [streamResponse, bodyEffects, hcacheable, hread]
  | true =>
      cases hread : (readBody config.security.maxBodySize true answers [] 0).1 with
      | error e =>
          simp [streamResponse, bodyEffects, hcacheable, hread]
      | ok buf =>
          have hbody := (readBody_eq_ok_iff (Nat.zero_le _)).1 hread
          -- only an explicit zero is left to keep the body out
          have hnone : storedTtl parseHttpDate config now key.uri (filterHeaders resp.headers) =
              none := by
            refine storedTtl_eq_none_iff.2 (not_not.1 (fun hlives => h ?_))
            exact ⟨hcacheable, hbody.1, by simpa using hbody.2.1, hlives⟩
          simp [streamResponse, bodyEffects, hcacheable, hread, hnone]

variable (later) in
theorem putsOf_of_storable (h : Storable parseHttpDate config key now resp answers) :
    ∃ ttl, storedTtl parseHttpDate config now key.uri (filterHeaders resp.headers) = some ttl ∧
      putsOf (streamResponse parseHttpDate config key now later resp answers).2 =
        [putCall key later resp answers ttl] := by
  obtain ⟨ttl, httl, heffects⟩ := effects_of_storable later h
  refine ⟨ttl, httl, ?_⟩
  rw [heffects, putsOf_append, bodyEffects, putsOf_loopEffects]
  rfl

variable (later) in
theorem putsOf_of_not_storable (h : ¬ Storable parseHttpDate config key now resp answers) :
    putsOf (streamResponse parseHttpDate config key now later resp answers).2 = [] := by
  rw [effects_of_not_storable later h, bodyEffects, putsOf_loopEffects]

theorem chunksOf_streamResponse :
    chunksOf (streamResponse parseHttpDate config key now later resp answers).2 =
      (readBody config.security.maxBodySize
        (shouldCacheResponse resp.status (filterHeaders resp.headers)) answers [] 0).2 := by
  by_cases h : Storable parseHttpDate config key now resp answers
  · obtain ⟨ttl, -, heffects⟩ := effects_of_storable later h
    rw [heffects, chunksOf_append, bodyEffects, chunksOf_loopEffects]
    exact List.append_nil _
  · rw [effects_of_not_storable later h, bodyEffects, chunksOf_loopEffects]

/-- Data that is stored is the data that was passed on. -/
theorem chunksOf_of_storable (h : Storable parseHttpDate config key now resp answers) :
    (chunksOf (streamResponse parseHttpDate config key now later resp answers).2).flatten =
      bodyOf answers := by
  rw [chunksOf_streamResponse]
  exact chunks_readBody_of_ok (readBody_of_complete h.complete h.fits)

theorem length_chunksOf_le :
    (chunksOf (streamResponse parseHttpDate config key now later resp answers).2).flatten.length ≤
      config.security.maxBodySize := by
  rw [chunksOf_streamResponse]
  simpa using length_chunks_readBody_le (Nat.zero_le config.security.maxBodySize)

end Stored

/-! ## The contract of the loop -/

/-- Upstream was asked and answered. -/
def Answered (config : Config)
    (fetch : Request → Bytes → Except ProxyError (Response × List Answer)) (req : Request)
    (body : List (Except Str Frame)) (resp : Response) (answers : List Answer) : Prop :=
  ∃ bodyBytes, collectFrames config.security.maxBodySize body [] = .ok bodyBytes ∧
    fetch (newReq req) bodyBytes = .ok (resp, answers)

section Contract

variable {parseHttpDate : Str → Option Nat} {config : Config}
  {fetch : Request → Bytes → Except ProxyError (Response × List Answer)} {key : CacheKey}
  {now later : Nat} {req : Request} {body : List (Except Str Frame)}

theorem fetchAndStream_of_answered {resp : Response} {answers : List Answer}
    (h : Answered config fetch req body resp answers) :
    (fetchAndStream parseHttpDate config fetch key now later req body).2 =
      (streamResponse parseHttpDate config key now later resp answers).2 := by
  obtain ⟨bodyBytes, hbody, hfetch⟩ := h
  simp [fetchAndStream, hbody, hfetch]

/-- Without an answer nothing at all is done to the cache. -/
theorem fetchAndStream_of_not_answered
    (h : ∀ resp answers, ¬ Answered config fetch req body resp answers) :
    (fetchAndStream parseHttpDate config fetch key now later req body).2 = [] := by
  unfold fetchAndStream
  cases hbody : collectFrames config.security.maxBodySize body [] with
  | error e =>
      rfl
  | ok bodyBytes =>
      cases hfetch : fetch (newReq req) bodyBytes with
      | error e =>
          simp [hfetch]
      | ok r =>
          exact absurd ⟨bodyBytes, hbody, hfetch⟩ (h r.1 r.2)

end Contract

/-- What `fetch_and_stream` stores and passes on, given what upstream answered. -/
structure StoresDelivered (parseHttpDate : Str → Option Nat) (config : Config) (key : CacheKey)
    (now : Nat) (resp : Response) (answers : List Answer) (effects : List Effect) : Prop where
  /-- `cache.put` is called once, or never. -/
  once : (putsOf effects).length ≤ 1
  stores : putsOf effects ≠ [] ↔ Storable parseHttpDate config key now resp answers
  data : ∀ call ∈ putsOf effects,
    call.data = bodyOf answers ∧ call.data = (chunksOf effects).flatten
  bounded : (chunksOf effects).flatten.length ≤ config.security.maxBodySize

theorem streamResponse_storesDelivered (parseHttpDate : Str → Option Nat) (config : Config)
    (key : CacheKey) (now later : Nat) (resp : Response) (answers : List Answer) :
    StoresDelivered parseHttpDate config key now resp answers
      (streamResponse parseHttpDate config key now later resp answers).2 := by
  by_cases hstorable : Storable parseHttpDate config key now resp answers
  · obtain ⟨ttl, -, hputs⟩ := putsOf_of_storable later hstorable
    refine ⟨by simp [hputs], by simp [hputs, hstorable], ?_, length_chunksOf_le⟩
    intro call hcall
    have heq : call = putCall key later resp answers ttl := by
      simpa [hputs] using hcall
    subst heq
    exact ⟨rfl, (chunksOf_of_storable hstorable).symm⟩
  · have hputs := putsOf_of_not_storable later hstorable
    refine ⟨by simp [hputs], by simp [hputs, hstorable], ?_, length_chunksOf_le⟩
    intro call hcall
    simp [hputs] at hcall

/-- The loop stores what it delivered or nothing, and what it accepts `collect_body` accepts. -/
theorem fetchAndStream_stores (parseHttpDate : Str → Option Nat) (config : Config)
    (fetch : Request → Bytes → Except ProxyError (Response × List Answer)) (key : CacheKey)
    (now later : Nat) (req : Request) (body : List (Except Str Frame)) :
    let effects := (fetchAndStream parseHttpDate config fetch key now later req body).2
    (∀ resp answers, Answered config fetch req body resp answers →
      StoresDelivered parseHttpDate config key now resp answers effects) ∧
    ((∀ resp answers, ¬ Answered config fetch req body resp answers) → effects = []) ∧
    ∀ (cacheable : Bool) (frames : List (Except Str Frame)),
      (∃ buf, (readBody config.security.maxBodySize cacheable (frames.map ofFrame) [] 0).1 =
        .ok buf) ↔
      ∃ collected, collectFrames config.security.maxBodySize frames [] = .ok collected := by
  refine ⟨?_, fetchAndStream_of_not_answered, ?_⟩
  · intro resp answers hanswered
    rw [fetchAndStream_of_answered hanswered]
    exact streamResponse_storesDelivered parseHttpDate config key now later resp answers
  · intro cacheable frames
    have hzero := Nat.zero_le config.security.maxBodySize
    constructor
    · rintro ⟨buf, hbuf⟩
      have h := (readBody_eq_ok_iff hzero).1 hbuf
      exact ⟨_, (collectFrames_eq_ok_iff hzero).2 ⟨h.1, by simpa using h.2.1, rfl⟩⟩
    · rintro ⟨collected, hcollected⟩
      have h : Complete (frames.map ofFrame) ∧
          (bodyOf (frames.map ofFrame)).length ≤ config.security.maxBodySize := by
        simpa using ((collectFrames_eq_ok_iff hzero).1 hcollected).imp_right And.left
      exact ⟨_, readBody_of_complete h.1 h.2⟩

end Proxy
end Squiddish
