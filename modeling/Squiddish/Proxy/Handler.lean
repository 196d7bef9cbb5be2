import Squiddish.Lib.Prog
import Squiddish.Proxy.Connections
import Squiddish.Proxy.ErrorPage
import Squiddish.Proxy.Fetch

/-!
# Handler — `ProxyHandler::handle`

The handler of a request as a program over what it asks of the rest of the proxy: the cache, the
registry of downloads, the sockets, the semaphore and the clock.  Between two operations there is
only code of its own, so that the programs of many requests can be run side by side.

A download is named by its number, which stands for the sender and the receiver of headers that the
handler holds of it.
-/

namespace Squiddish
namespace Proxy

open Lib Cache Inflight

/-! ## The interface -/

/-- What `join_or_start_download` returns. -/
inductive DownloadAction
  | joined (d : Nat) (receiver : Receiver) (initialChunks : List Bytes)
  | started (d : Nat)
  deriving DecidableEq, Repr

inductive HandlerOp
  /-- `cache.get`. -/
  | cacheGet (key : CacheKey)
  | joinOrStart (key : CacheKey)
  /-- `sender.subscribe()`. -/
  | subscribe (d : Nat)
  /-- The `tokio::spawn` of `handle_streaming_download`. -/
  | spawnDownload (d : Nat) (key : CacheKey) (req : Request)
  /-- `meta_rx.wait_for(|v| v.is_some())`. -/
  | waitMeta (d : Nat)
  /-- The receiver of the headers goes out of scope. -/
  | dropMeta (d : Nat)
  | connect (target : Str)
  /-- `semaphore.try_acquire_owned()`. -/
  | tryAcquire
  /-- The `tokio::spawn` of `handle_connect`. -/
  | spawnTunnel (target : Str)
  /-- The frames of the body of the request. -/
  | requestBody
  /-- `fetch_with_timeout`, and the frames of the body of the response. -/
  | fetch (req : Request) (body : Bytes)
  | now
  /-- The time as text. -/
  | date

/-- What an operation answers. -/
abbrev HandlerOp.Answer : HandlerOp → Type
  | .cacheGet _ => Outcome (Option CacheEntry)
  | .joinOrStart _ => DownloadAction
  | .subscribe _ => Receiver
  | .spawnDownload _ _ _ => Unit
  | .waitMeta _ => Option ResponseMetaResult
  | .dropMeta _ => Unit
  | .connect _ => Dial
  | .tryAcquire => Bool
  | .spawnTunnel _ => Unit
  | .requestBody => List (Except Str Frame)
  | .fetch _ _ => Except ProxyError (Response × List (Except Str Frame))
  | .now => Nat
  | .date => Str

abbrev HandlerProg (α : Type) := Prog HandlerOp.Answer α

/-- `Either<Full<Bytes>, StreamingBody>` with its head. -/
inductive ClientResponse
  | full (response : FullResponse)
  | streaming (d : Nat) (head : Head) (body : StreamingBody)
  deriving DecidableEq, Repr

/-! ## CONNECT -/

/-- The address that is dialled, of a request that is valid. -/
def connectAddress (security : SecurityConfig) (uri : Uri) : Outcome Str := do
  let (host, port) ← parseConnectUri uri
  if security.strictHttps ∧ port ≠ 443 then
    throw (.error (.tunnel
      ("Only port 443 allowed for CONNECT, got ".toList ++ (toString port).toList)))
  return host ++ ':' :: (toString port).toList

/-- The `200` that tells the client to use its tunnel. -/
def established : FullResponse :=
  { status := 200, headers := [], body := [] }

/-- `handle_connect`. -/
def handleConnect (security : SecurityConfig) (req : Request) :
    HandlerProg (Outcome ClientResponse) :=
  match connectAddress security req.uri with
  | .error e => .ret (.error e)
  | .ok target =>
      .call (.connect target) fun dial =>
        -- with a permit to spare only the dial itself can fail
        match afterDial target dial 1 with
        | .error e => .ret (.error e)
        | .ok () =>
            .call .tryAcquire fun granted =>
              if granted then
                .call (.spawnTunnel target) fun _ => .ret (.ok (.full established))
              else
                .ret (.error maxConnectionsReached)

/-! ## GET and HEAD -/

/-- What becomes of the headers of a download, or of there being none. -/
def streamMeta (closed : Str) (d : Nat) (receiver : Receiver) (initialChunks : List Bytes) :
    Option ResponseMetaResult → Outcome ClientResponse
  | none => .error (.error (.network closed))
  | some (.error text) => .error (.error (.network text))
  | some (.ok m) => do
      let head ← buildStreamingResponse m
      return .streaming d head (.new receiver initialChunks)

/-- The wait for the headers, which is the same for who joins and who starts. -/
def awaitMeta (closed : Str) (d : Nat) (receiver : Receiver) (initialChunks : List Bytes) :
    HandlerProg (Outcome ClientResponse) :=
  .call (.waitMeta d) fun r =>
    .call (.dropMeta d) fun _ => .ret (streamMeta closed d receiver initialChunks r)

def joinClosed : Str := "Download failed before headers received".toList

def startClosed : Str := "Request failed".toList

/-- `handle_streaming_download`: the subscription stands before the spawn. -/
def handleStreamingDownload (req : Request) (key : CacheKey) (d : Nat) :
    HandlerProg (Outcome ClientResponse) :=
  .call (.subscribe d) fun receiver =>
    .call (.spawnDownload d key req) fun _ => awaitMeta startClosed d receiver []

/-- `handle_cacheable_request` behind the registry. -/
def afterJoin (req : Request) (key : CacheKey) :
    DownloadAction → HandlerProg (Outcome ClientResponse)
  | .joined d receiver initialChunks => awaitMeta joinClosed d receiver initialChunks
  | .started d => handleStreamingDownload req key d

/-- `handle_cacheable_request` behind the cache. -/
def afterCacheGet (req : Request) (key : CacheKey) :
    Outcome (Option CacheEntry) → HandlerProg (Outcome ClientResponse)
  | .error e => .ret (.error e)
  | .ok (some entry) => .call .now fun now => .ret (.ok (.full (buildResponseFromCache entry now)))
  | .ok none => .call (.joinOrStart key) (afterJoin req key)

/-- `handle_cacheable_request`. -/
def handleCacheableRequest (sha256 : Bytes → Vector UInt8 32) (req : Request) :
    HandlerProg (Outcome ClientResponse) :=
  .call (.cacheGet (createCacheKey sha256 req)) (afterCacheGet req (createCacheKey sha256 req))

/-! ## Other methods -/

/-- The response of `forward_request_full`. -/
def fullResponse (maxBodySize : Nat) (resp : Response) (frames : List (Except Str Frame)) :
    Outcome ClientResponse := do
  let body ← collectFrames maxBodySize frames []
  return .full
    { status := resp.status
      headers := (filterHeaders resp.headers).append "via".toList viaValue
      body := body }

/-- `handle_passthrough_request`, which is `forward_request_full`. -/
def handlePassthroughRequest (security : SecurityConfig) (req : Request) :
    HandlerProg (Outcome ClientResponse) :=
  .call .requestBody fun frames =>
    match collectFrames security.maxBodySize frames [] with
    | .error e => .ret (.error e)
    | .ok body =>
        .call (.fetch (newReq req) body) fun r =>
          match r with
          | .error e => .ret (.error (.error e))
          | .ok (resp, frames) => .ret (fullResponse security.maxBodySize resp frames)

/-! ## The handler -/

/-- The methods that are answered from the cache. -/
def Cacheable (req : Request) : Prop :=
  req.method = "GET".toList ∨ req.method = "HEAD".toList

instance (req : Request) : Decidable (Cacheable req) := by
  unfold Cacheable
  infer_instance

/-- `handle_request`. -/
def handleRequest (sha256 : Bytes → Vector UInt8 32) (security : SecurityConfig) (req : Request) :
    HandlerProg (Outcome ClientResponse) :=
  match validateRequest security req with
  | .error e => .ret (.error e)
  | .ok () =>
      if req.method = "CONNECT".toList then handleConnect security req
      else if Cacheable req then handleCacheableRequest sha256 req
      else handlePassthroughRequest security req

/-- An error becomes a page, and a panic ends the connection. -/
def finish : Outcome ClientResponse → HandlerProg (Outcome ClientResponse)
  | .ok response => .ret (.ok response)
  | .error .panic => .ret (.error .panic)
  | .error (.error e) =>
      .call .date fun date => .ret ((buildErrorPage e date).map .full)

/-- `handle`. -/
def handle (sha256 : Bytes → Vector UInt8 32) (security : SecurityConfig) (req : Request) :
    HandlerProg (Outcome ClientResponse) :=
  handleRequest sha256 security req >>= finish

/-! ## The parts that stand elsewhere -/

theorem connectTarget_eq (security : SecurityConfig) (req : Request) :
    connectTarget security req =
      (validateRequest security req >>= fun _ => connectAddress security req.uri) :=
  rfl

theorem connectTarget_of_valid {security : SecurityConfig} {req : Request}
    (hvalid : validateRequest security req = .ok ()) :
    connectTarget security req = connectAddress security req.uri := by
  rw [connectTarget_eq, hvalid]
  rfl

/-- On data frames the response is that of `forward_request_full`. -/
theorem fullResponse_map_data (maxBodySize : Nat) (resp : Response) (frames : List Bytes) :
    fullResponse maxBodySize resp (frames.map (fun b => .ok (.data b))) =
      (forwardRequestFull maxBodySize resp frames).map .full := by
  rw [fullResponse, forwardRequestFull, collectFrames_map_data]
  cases collectBody maxBodySize frames [] <;> rfl

/-! ## What a request can make the proxy do -/

section Permitted

variable (sha256 : Bytes → Vector UInt8 32) (security : SecurityConfig) (req : Request)

/-- What the handler of this request may ask for.  A request that is not valid gets its page and
nothing else. -/
def Permitted : HandlerOp → Prop
  | .cacheGet key | .joinOrStart key =>
      validateRequest security req = .ok () ∧ Cacheable req ∧ key = createCacheKey sha256 req
  | .spawnDownload _ key req' =>
      validateRequest security req = .ok () ∧ Cacheable req ∧ key = createCacheKey sha256 req ∧
        req' = req
  | .subscribe _ | .waitMeta _ | .dropMeta _ | .now =>
      validateRequest security req = .ok () ∧ Cacheable req
  | .connect target | .spawnTunnel target =>
      connectTarget security req = .ok target ∧ req.method = "CONNECT".toList
  | .tryAcquire => validateRequest security req = .ok () ∧ req.method = "CONNECT".toList
  | .requestBody =>
      validateRequest security req = .ok () ∧ ¬ Cacheable req ∧ req.method ≠ "CONNECT".toList
  | .fetch req' body =>
      validateRequest security req = .ok () ∧ ¬ Cacheable req ∧ req.method ≠ "CONNECT".toList ∧
        req' = newReq req ∧ body.length ≤ security.maxBodySize
  | .date => True

variable {sha256 security req}

open Prog

theorem onlyCalls_finish (r : Outcome ClientResponse) :
    OnlyCalls (Permitted sha256 security req) (finish r) := by
  rcases r with (e | _) | response
  · exact ⟨trivial, fun _ => trivial⟩
  · trivial
  · trivial

theorem onlyCalls_handleConnect (hvalid : validateRequest security req = .ok ())
    (hconnect : req.method = "CONNECT".toList) :
    OnlyCalls (Permitted sha256 security req) (handleConnect security req) := by
  unfold handleConnect
  cases haddress : connectAddress security req.uri with
  | error e =>
      trivial
  | ok target =>
      have htarget : connectTarget security req = .ok target :=
        (connectTarget_of_valid hvalid).trans haddress
      refine ⟨⟨htarget, hconnect⟩, ?_⟩
      intro dial
      cases hdial : afterDial target dial 1 with
      | error e =>
          simp only [hdial]
          trivial
      | ok _ =>
          simp only [hdial]
          refine ⟨⟨hvalid, hconnect⟩, ?_⟩
          intro granted
          cases granted with
          | false =>
              trivial
          | true =>
              exact ⟨⟨htarget, hconnect⟩, fun _ => trivial⟩

theorem onlyCalls_awaitMeta (hvalid : validateRequest security req = .ok ())
    (hcacheable : Cacheable req) (closed : Str) (d : Nat) (receiver : Receiver)
    (initialChunks : List Bytes) :
    OnlyCalls (Permitted sha256 security req) (awaitMeta closed d receiver initialChunks) :=
  ⟨⟨hvalid, hcacheable⟩, fun _ => ⟨⟨hvalid, hcacheable⟩, fun _ => trivial⟩⟩

theorem onlyCalls_handleCacheableRequest (hvalid : validateRequest security req = .ok ())
    (hcacheable : Cacheable req) :
    OnlyCalls (Permitted sha256 security req) (handleCacheableRequest sha256 req) := by
  refine ⟨⟨hvalid, hcacheable, rfl⟩, ?_⟩
  rintro (e | _ | entry)
  · trivial
  · refine ⟨⟨hvalid, hcacheable, rfl⟩, ?_⟩
    rintro (⟨d, receiver, initialChunks⟩ | d)
    · exact onlyCalls_awaitMeta hvalid hcacheable _ _ _ _
    · exact ⟨⟨hvalid, hcacheable⟩, fun _ => ⟨⟨hvalid, hcacheable, rfl, rfl⟩,
        fun _ => onlyCalls_awaitMeta hvalid hcacheable _ _ _ _⟩⟩
  · exact ⟨⟨hvalid, hcacheable⟩, fun _ => trivial⟩

theorem onlyCalls_handlePassthroughRequest (hvalid : validateRequest security req = .ok ())
    (hcacheable : ¬ Cacheable req) (hconnect : req.method ≠ "CONNECT".toList) :
    OnlyCalls (Permitted sha256 security req) (handlePassthroughRequest security req) := by
  refine ⟨⟨hvalid, hcacheable, hconnect⟩, ?_⟩
  intro frames
  cases hbody : collectFrames security.maxBodySize frames [] with
  | error e =>
      simp only [hbody]
      trivial
  | ok body =>
      have hfits := (collectFrames_eq_ok_iff (Nat.zero_le _)).1 hbody
      have hlength : body.length ≤ security.maxBodySize := by
        simpa [hfits.2.2] using hfits.2.1
      simp only [hbody]
      refine ⟨⟨hvalid, hcacheable, hconnect, rfl, hlength⟩, ?_⟩
      rintro (e | ⟨resp, frames⟩) <;> trivial

/-- Whatever the cache, the registry, upstream and the clock answer, the handler asks for nothing
that the request does not permit. -/
theorem onlyCalls_handle (sha256 : Bytes → Vector UInt8 32) (security : SecurityConfig)
    (req : Request) :
    OnlyCalls (Permitted sha256 security req) (handle sha256 security req) := by
  refine OnlyCalls.bind ?_ onlyCalls_finish
  unfold handleRequest
  cases hvalid : validateRequest security req with
  | error e =>
      trivial
  | ok _ =>
      dsimp only
      by_cases hconnect : req.method = "CONNECT".toList
      · rw [if_pos hconnect]
        exact onlyCalls_handleConnect hvalid hconnect
      · rw [if_neg hconnect]
        by_cases hcacheable : Cacheable req
        · rw [if_pos hcacheable]
          exact onlyCalls_handleCacheableRequest hvalid hcacheable
        · rw [if_neg hcacheable]
          exact onlyCalls_handlePassthroughRequest hvalid hcacheable hconnect

/-- In any surroundings, wherever the handler has got to, the next thing it asks for is one that its
request permits. -/
theorem permitted_of_steps {σ : Type} {perf : (op : HandlerOp) → σ → op.Answer → σ → Prop} {s t : σ}
    {p : HandlerProg (Outcome ClientResponse)} {op : HandlerOp}
    (hsteps : Relation.ReflTransGen (Step perf) (handle sha256 security req, s) (p, t))
    (hop : p.pending = some op) : Permitted sha256 security req op :=
  ((Holds.of_onlyCalls_kind (onlyCalls_handle sha256 security req) s).steps hsteps).of_pending hop

end Permitted

/-- A tunnel asks for its permit behind the dial. -/
theorem permitted_of_steps_tunnel :
    ∃ (sha256 : Bytes → Vector UInt8 32) (p : HandlerProg (Outcome ClientResponse)),
      p.pending = some .tryAcquire ∧
        Permitted sha256 Config.default.security tunnelRequest .tryAcquire := by
  let sha256 : Bytes → Vector UInt8 32 := fun _ => Vector.replicate 32 0
  have hvalid : validateRequest Config.default.security tunnelRequest = .ok () := by
    decide +kernel
  have haddress : connectAddress Config.default.security tunnelRequest.uri =
      .ok "example.com:443".toList :=
    (connectTarget_of_valid hvalid).symm.trans connectTarget_tunnelRequest
  have hhandle : ∃ next, handle sha256 Config.default.security tunnelRequest =
      .call (.connect "example.com:443".toList) next ∧
        (next .connected).pending = some .tryAcquire := by
    simp only [handle, handleRequest, hvalid, handleConnect, haddress]
    exact ⟨_, rfl, rfl⟩
  rcases hhandle with ⟨next, hhandle, hpending⟩
  have hstep : Prog.Step (fun _ _ _ _ => True)
      (handle sha256 Config.default.security tunnelRequest, ()) (next .connected, ()) := by
    rw [hhandle]
    exact .call trivial
  exact ⟨sha256, next .connected, hpending, permitted_of_steps (.single hstep) hpending⟩

/-! ## Requests that reach the cache -/

section Served

variable {sha256 : Bytes → Vector UInt8 32} {security : SecurityConfig} {req : Request}

/-- The request is valid and of a method that is answered from the cache. -/
def Served (security : SecurityConfig) (req : Request) : Prop :=
  validateRequest security req = .ok () ∧ Cacheable req

instance (security : SecurityConfig) (req : Request) : Decidable (Served security req) := by
  unfold Served
  infer_instance

theorem ne_connect_of_cacheable (h : Cacheable req) : req.method ≠ "CONNECT".toList := by
  rcases h with hget | hhead
  · rw [hget]
    decide
  · rw [hhead]
    decide

theorem handle_of_served (h : Served security req) :
    handle sha256 security req =
      .call (.cacheGet (createCacheKey sha256 req))
        (fun r => afterCacheGet req (createCacheKey sha256 req) r >>= finish) := by
  simp only [handle, handleRequest, h.1, if_neg (ne_connect_of_cacheable h.2), if_pos h.2]
  rfl

/-- A valid request of any other method is passed on. -/
theorem handle_of_passthrough (hvalid : validateRequest security req = .ok ())
    (hcacheable : ¬ Cacheable req) (hconnect : req.method ≠ "CONNECT".toList) :
    handle sha256 security req = handlePassthroughRequest security req >>= finish := by
  simp only [handle, handleRequest, hvalid, if_neg hconnect, if_neg hcacheable]

/-- Nothing is streamed from a download. -/
def Unstreamed (r : Outcome ClientResponse) : Prop :=
  ∀ d head body, r ≠ .ok (.streaming d head body)

theorem unstreamed_error (e : Failure) : Unstreamed (.error e) := by
  intro d head body h
  cases h

theorem unstreamed_full (response : FullResponse) : Unstreamed (.ok (.full response)) := by
  intro d head body h
  cases h

/-- The page of an error, or nothing. -/
def Page (r : Outcome ClientResponse) : Prop :=
  ∀ response, r = .ok response →
    ∃ e date page, buildErrorPage e date = .ok page ∧ response = .full page

theorem Page.unstreamed {r : Outcome ClientResponse} (h : Page r) : Unstreamed r := by
  intro d head body hr
  rcases h _ hr with ⟨_, _, _, -, hpage⟩
  cases hpage

/-- A handler that has failed sends a page. -/
theorem onlyReturns_finish_error (e : Failure) : Prog.OnlyReturns Page (finish (.error e)) := by
  cases e with
  | error e =>
      intro date response hresponse
      cases hpage : buildErrorPage e date with
      | error e' =>
          rw [hpage] at hresponse
          cases hresponse
      | ok page =>
          rw [hpage] at hresponse
          cases hresponse
          exact ⟨e, date, page, hpage, rfl⟩
  | panic =>
      intro response hresponse
      cases hresponse

theorem onlyReturns_finish {r : Outcome ClientResponse} (h : Unstreamed r) :
    Prog.OnlyReturns Unstreamed (finish r) := by
  rcases r with (e | _) | response
  · intro date
    show Unstreamed ((buildErrorPage e date).map .full)
    cases buildErrorPage e date with
    | error e =>
        exact unstreamed_error e
    | ok page =>
        exact unstreamed_full page
  · exact h
  · exact h

theorem onlyReturns_handleConnect : Prog.OnlyReturns Unstreamed (handleConnect security req) := by
  unfold handleConnect
  cases connectAddress security req.uri with
  | error e =>
      exact unstreamed_error e
  | ok target =>
      intro dial
      cases hdial : afterDial target dial 1 with
      | error e =>
          simp only [hdial]
          exact unstreamed_error e
      | ok _ =>
          simp only [hdial]
          intro granted
          cases granted with
          | false =>
              exact unstreamed_error _
          | true =>
              exact fun _ => unstreamed_full _

theorem unstreamed_fullResponse (maxBodySize : Nat) (resp : Response)
    (frames : List (Except Str Frame)) : Unstreamed (fullResponse maxBodySize resp frames) := by
  unfold fullResponse
  cases collectFrames maxBodySize frames [] with
  | error e =>
      exact unstreamed_error e
  | ok body =>
      exact unstreamed_full _

theorem onlyReturns_handlePassthroughRequest :
    Prog.OnlyReturns Unstreamed (handlePassthroughRequest security req) := by
  intro frames
  cases hbody : collectFrames security.maxBodySize frames [] with
  | error e =>
      simp only [hbody]
      exact unstreamed_error e
  | ok body =>
      simp only [hbody]
      rintro (e | ⟨resp, frames⟩)
      · exact unstreamed_error _
      · exact unstreamed_fullResponse _ _ _

/-- Only a request that reaches the cache is answered from a download. -/
theorem onlyReturns_handle (h : ¬ Served security req) :
    Prog.OnlyReturns Unstreamed (handle sha256 security req) := by
  refine Prog.OnlyReturns.bind ?_ (fun _ => onlyReturns_finish)
  unfold handleRequest
  cases hvalid : validateRequest security req with
  | error e =>
      exact unstreamed_error e
  | ok _ =>
      have hcacheable : ¬ Cacheable req := fun hc => h ⟨hvalid, hc⟩
      dsimp only
      by_cases hconnect : req.method = "CONNECT".toList
      · rw [if_pos hconnect]
        exact onlyReturns_handleConnect
      · rw [if_neg hconnect, if_neg hcacheable]
        exact onlyReturns_handlePassthroughRequest

end Served

end Proxy
end Squiddish
