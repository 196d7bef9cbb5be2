import Mathlib.Logic.Function.Basic
import Squiddish.Cache.Example
import Squiddish.Error
import Squiddish.Inflight.Downloads
import Squiddish.Lib.Runs
import Squiddish.Proxy.Caching

/-!
# System — clients, download tasks and the registry, step by step

The cacheable requests of `handler.rs`, all running at once.  A client looks its key up in the
cache, joins or starts a download, waits for the response headers and then polls its body; it
may disconnect at any await.  The task of a download fetches, publishes the headers, adds the
chunks, stores the body, reports, and drops its guard and its sender; it may fail or panic.

One `Step` is one stretch of code between two suspension points or one operation under a lock,
so the runs are all interleavings of any number of clients and tasks.  As in the source, every
operation finds the channels of a download *by the hash of the key* in the registry; only the
final report and the drop of the sender go through the task's own handle.
-/

namespace Squiddish
namespace Inflight

open Lib Cache

/-! ## Tasks -/

inductive TaskPhase
  /-- Spawned; the request has not been sent upstream. -/
  | spawned
  /-- `client.request` is running. -/
  | requested
  /-- The headers are published, the body is being read. -/
  | streaming
  /-- The body has ended; the entry is not stored yet. -/
  | received
  /-- `fetch_and_stream` returned `Ok`. -/
  | succeeded
  /-- `fetch_and_stream` returned `Err`. -/
  | failed
  /-- `set_response_error` has run. -/
  | errorPublished
  /-- `Complete` has been sent. -/
  | completeSent
  /-- `Error` has been sent. -/
  | errorSent
  /-- Unwinding; the guard has not been dropped. -/
  | panicked
  /-- The guard has been dropped: `complete_download` has run. -/
  | released
  /-- The sender has been dropped. -/
  | ended
  deriving DecidableEq, Repr

/-- The guard of the task is still alive. -/
def TaskPhase.Live (phase : TaskPhase) : Prop :=
  phase ≠ .released ∧ phase ≠ .ended

/-- The task has code to run before its guard is dropped. -/
def TaskPhase.Running (phase : TaskPhase) : Prop :=
  phase ≠ .completeSent ∧ phase ≠ .errorSent ∧ phase ≠ .panicked ∧ phase.Live

instance (phase : TaskPhase) : Decidable phase.Live := by
  unfold TaskPhase.Live
  infer_instance

instance (phase : TaskPhase) : Decidable phase.Running := by
  unfold TaskPhase.Running
  infer_instance

structure Task (ι : Type) where
  key : CacheKey
  initiator : ι
  request : Request
  phase : TaskPhase
  /-- What upstream answered. -/
  response : Option Response
  /-- The data frames upstream has delivered. -/
  upstream : List Bytes
  /-- Upstream has ended the body without an error. -/
  bodyComplete : Bool
  cacheBuf : Bytes
  totalSize : Nat
  /-- The error `fetch_and_stream` returned. -/
  failure : Option ProxyError

def Task.new {ι : Type} (key : CacheKey) (initiator : ι) (request : Request) : Task ι :=
  { key := key, initiator := initiator, request := request, phase := .spawned, response := none
    upstream := [], bodyComplete := false, cacheBuf := [], totalSize := 0, failure := none }

/-- The metadata published for a response: its status and its filtered headers. -/
def metaOf (resp : Response) : ResponseMeta :=
  { status := resp.status, headers := Proxy.headersVec (Proxy.filterHeaders resp.headers) }

def cacheable (resp : Response) : Bool :=
  Proxy.shouldCacheResponse resp.status (Proxy.filterHeaders resp.headers)

/-- The task after one more data frame. -/
def Task.receive {ι : Type} (task : Task ι) (resp : Response) (bytes : Bytes) : Task ι :=
  { task with
    upstream := task.upstream ++ [bytes]
    totalSize := task.totalSize + bytes.length
    cacheBuf := if cacheable resp then task.cacheBuf ++ bytes else task.cacheBuf }

@[simp] theorem Task.phase_receive {ι : Type} (task : Task ι) (resp : Response) (bytes : Bytes) :
    (task.receive resp bytes).phase = task.phase := rfl

@[simp] theorem Task.upstream_receive {ι : Type} (task : Task ι) (resp : Response)
    (bytes : Bytes) : (task.receive resp bytes).upstream = task.upstream ++ [bytes] := rfl

/-! ## Clients -/

inductive ClientPhase
  | arrived
  /-- The cache lookup gave nothing; `join_or_start_download` has not run. -/
  | missed
  /-- Waiting for the headers. -/
  | waiting (receiver : Receiver) (initialChunks : List Bytes)
  /-- The headers have come; the receiver for them is not dropped yet. -/
  | answered (receiver : Receiver) (initialChunks : List Bytes) (responseMeta : ResponseMeta)
  | streaming (responseMeta : ResponseMeta) (body : StreamingBody)
  | hit (entry : CacheEntry)
  | refused (e : ProxyError)
  | gone

structure Client where
  phase : ClientPhase
  /-- The download the client joined or started. -/
  download : Option Nat
  /-- The data frames its body has given. -/
  received : List Bytes
  /-- How its body ended. -/
  ending : Option (Except Str Unit)

def Client.new : Client :=
  { phase := .arrived, download := none, received := [], ending := none }

/-- The client after one poll of its body. -/
def Client.polled (client : Client) (responseMeta : ResponseMeta) :
    PollResult × StreamingBody → Client
  | (.pending, body) => { client with phase := .streaming responseMeta body }
  | (.frame bytes, body) =>
      { client with
        phase := .streaming responseMeta body, received := client.received ++ [bytes] }
  | (.error text, body) =>
      { client with
        phase := .streaming responseMeta body
        ending := client.ending.or (some (.error text)) }
  | (.done, body) =>
      { client with
        phase := .streaming responseMeta body, ending := client.ending.or (some (.ok ())) }

@[simp] theorem Client.download_polled (client : Client) (responseMeta : ResponseMeta)
    (r : PollResult × StreamingBody) :
    (client.polled responseMeta r).download = client.download := by
  rcases r with ⟨_ | _ | _ | _, body⟩ <;> rfl

@[simp] theorem Client.phase_polled (client : Client) (responseMeta : ResponseMeta)
    (r : PollResult × StreamingBody) :
    (client.polled responseMeta r).phase = .streaming responseMeta r.2 := by
  rcases r with ⟨_ | _ | _ | _, body⟩ <;> rfl

/-! ## The state -/

structure Env (ι : Type) where
  sha256 : Bytes → Vector UInt8 32
  parseHttpDate : Str → Option Nat
  config : Config
  request : ι → Request

/-- `create_cache_key` for the request of a client. -/
def Env.key {ι : Type} (E : Env ι) (c : ι) : CacheKey :=
  Proxy.createCacheKey E.sha256 (E.request c)

structure State (ι : Type) where
  /-- `InflightDownloads::downloads`, by key hash. -/
  downloads : Str → Option Nat
  states : Nat → DownloadState
  tasks : Nat → Option (Task ι)
  /-- The next unused download. -/
  next : Nat
  clients : ι → Client
  cache : CacheKey → Option CacheEntry
  /-- All that was ever put into the cache. -/
  written : List (CacheKey × CacheEntry)

namespace State

variable {ι : Type}

def init : State ι :=
  { downloads := fun _ => none, states := fun _ => .new, tasks := fun _ => none, next := 0
    clients := fun _ => .new, cache := fun _ => none, written := [] }

def modifyState (s : State ι) (d : Nat) (f : DownloadState → DownloadState) : State ι :=
  { s with states := Function.update s.states d (f (s.states d)) }

def setTask (s : State ι) (d : Nat) (task : Task ι) : State ι :=
  { s with tasks := Function.update s.tasks d (some task) }

section Fields

variable (s : State ι) (d : Nat) (f : DownloadState → DownloadState) (task : Task ι)

@[simp] theorem downloads_modifyState : (s.modifyState d f).downloads = s.downloads := rfl

@[simp] theorem states_modifyState :
    (s.modifyState d f).states = Function.update s.states d (f (s.states d)) := rfl

@[simp] theorem tasks_modifyState : (s.modifyState d f).tasks = s.tasks := rfl

@[simp] theorem next_modifyState : (s.modifyState d f).next = s.next := rfl

@[simp] theorem clients_modifyState : (s.modifyState d f).clients = s.clients := rfl

@[simp] theorem cache_modifyState : (s.modifyState d f).cache = s.cache := rfl

@[simp] theorem written_modifyState : (s.modifyState d f).written = s.written := rfl

@[simp] theorem downloads_setTask : (s.setTask d task).downloads = s.downloads := rfl

@[simp] theorem states_setTask : (s.setTask d task).states = s.states := rfl

@[simp] theorem tasks_setTask :
    (s.setTask d task).tasks = Function.update s.tasks d (some task) := rfl

@[simp] theorem next_setTask : (s.setTask d task).next = s.next := rfl

@[simp] theorem clients_setTask : (s.setTask d task).clients = s.clients := rfl

@[simp] theorem cache_setTask : (s.setTask d task).cache = s.cache := rfl

@[simp] theorem written_setTask : (s.setTask d task).written = s.written := rfl

end Fields

/-! ### `inflight.rs` -/

/-- The operations that look the download up by the hash of its key, change its channels, and
do nothing when it is not registered. -/
def withDownload (s : State ι) (key : CacheKey) (f : DownloadState → DownloadState) : State ι :=
  { s with
    states :=
      match s.downloads key.hashHex with
      | some d => Function.update s.states d (f (s.states d))
      | none => s.states }

def setResponseMeta (s : State ι) (key : CacheKey) (responseMeta : ResponseMeta) : State ι :=
  s.withDownload key (fun st => st.publish (.ok responseMeta))

def setResponseError (s : State ι) (key : CacheKey) (text : Str) : State ι :=
  s.withDownload key (fun st => st.publish (.error text))

def addChunk (s : State ι) (key : CacheKey) (chunk : Bytes) : State ι :=
  s.withDownload key (fun st => st.addChunk chunk)

/-- `complete_download`: the entry and the handles it holds are dropped. -/
def completeDownload (s : State ι) (key : CacheKey) : State ι :=
  { s.withDownload key DownloadState.unregister with
    downloads := Function.update s.downloads key.hashHex none }

/-! ### `fetch_and_stream` -/

/-- The entry `fetch_and_stream` stores. -/
def entryOf (task : Task ι) (resp : Response) (now ttl : Nat)
    (h : task.cacheBuf.length < 2 ^ 63) : CacheEntry :=
  { data := task.cacheBuf
    headers := (metaOf resp).headers
    status := resp.status
    timestamp := now
    ttlSeconds := ttl
    data_lt := h }

/-- What `fetch_and_stream` stores after the body has ended: nothing when the response is not
cacheable or explicitly expired. -/
def stored (E : Env ι) (task : Task ι) (now : Nat) (h : task.cacheBuf.length < 2 ^ 63) :
    Option CacheEntry :=
  match task.response with
  | none => none
  | some resp =>
      if cacheable resp then
        match Proxy.storedTtl E.parseHttpDate E.config now task.key.uri
            (Proxy.filterHeaders resp.headers) with
        | some ttl => some (entryOf task resp now ttl h)
        | none => none
      else none

theorem stored_of_cacheable {E : Env ι} {task : Task ι} {resp : Response} {now ttl : Nat}
    {h : task.cacheBuf.length < 2 ^ 63} (hresp : task.response = some resp)
    (hcacheable : cacheable resp = true)
    (httl : Proxy.storedTtl E.parseHttpDate E.config now task.key.uri
      (Proxy.filterHeaders resp.headers) = some ttl) :
    stored E task now h = some (entryOf task resp now ttl h) := by
  simp [stored, hresp, hcacheable, httl]

def store (s : State ι) (E : Env ι) (task : Task ι) (now : Nat)
    (h : task.cacheBuf.length < 2 ^ 63) : State ι :=
  { s with
    cache :=
      match stored E task now h with
      | some entry => Function.update s.cache task.key (some entry)
      | none => s.cache
    written := s.written ++ ((stored E task now h).map (fun entry => (task.key, entry))).toList }

/-! ### Clients -/

variable [DecidableEq ι]

def setClient (s : State ι) (c : ι) (client : Client) : State ι :=
  { s with clients := Function.update s.clients c client }

def setPhase (s : State ι) (c : ι) (phase : ClientPhase) : State ι :=
  s.setClient c { s.clients c with phase := phase }

section Fields

variable (s : State ι) (c : ι) (client : Client)

@[simp] theorem downloads_setClient : (s.setClient c client).downloads = s.downloads := rfl

@[simp] theorem states_setClient : (s.setClient c client).states = s.states := rfl

@[simp] theorem tasks_setClient : (s.setClient c client).tasks = s.tasks := rfl

@[simp] theorem next_setClient : (s.setClient c client).next = s.next := rfl

@[simp] theorem clients_setClient :
    (s.setClient c client).clients = Function.update s.clients c client := rfl

@[simp] theorem cache_setClient : (s.setClient c client).cache = s.cache := rfl

@[simp] theorem written_setClient : (s.setClient c client).written = s.written := rfl

end Fields

/-- `join_or_start_download` and what the handler does before its next await.  A joiner gets a
receiver and the chunks so far under one lock.  An initiator subscribes to the new channel and
spawns the task; no message can be sent in between. -/
def joinOrStartDownload (s : State ι) (E : Env ι) (c : ι) : State ι :=
  match s.downloads (E.key c).hashHex with
  -- `Joined`: the cursor and the chunks belong to one moment, so nothing is missed or doubled
  | some d =>
      (s.modifyState d DownloadState.subscribeMeta).setClient c
        { s.clients c with
          phase := .waiting (s.states d).sender.subscribe (s.states d).accumulated
          download := some d }
  -- `Started`: no await stands between the registration and the spawn
  | none =>
      { s with
        downloads := Function.update s.downloads (E.key c).hashHex (some s.next)
        states := Function.update s.states s.next .new
        tasks := Function.update s.tasks s.next (some (Task.new (E.key c) c (E.request c)))
        next := s.next + 1
        clients := Function.update s.clients c
          { s.clients c with
            phase := .waiting DownloadState.new.sender.subscribe []
            download := some s.next } }

end State

/-! ## Steps -/

inductive Action (ι : Type)
  | lookup (c : ι)
  | joinOrStart (c : ι)
  | awaitMeta (c : ι)
  | build (c : ι)
  | poll (c : ι)
  | disconnect (c : ι)
  | fetch (d : Nat)
  | respond (d : Nat) (resp : Response)
  | chunk (d : Nat) (bytes : Bytes)
  | oversized (d : Nat) (bytes : Bytes)
  | bodyEnd (d : Nat)
  | store (d : Nat) (now : Nat)
  | storeFailed (d : Nat)
  | fail (d : Nat) (e : ProxyError)
  | publishError (d : Nat)
  | sendError (d : Nat)
  | sendComplete (d : Nat)
  | panic (d : Nat)
  | completeDownload (d : Nat)
  | endTask (d : Nat)
  | evict (key : CacheKey)
  | restore (key : CacheKey) (entry : CacheEntry)

/-- The text of the error a client gets when the headers will never come. -/
def closedText {ι : Type} [DecidableEq ι] (task : Task ι) (c : ι) : Str :=
  if task.initiator = c then "Request failed".toList
  else "Download failed before headers received".toList

section Step

variable {ι : Type} [DecidableEq ι]

inductive Step (E : Env ι) : State ι → Action ι → State ι → Prop
  -- clients
  | lookupHit {s : State ι} {c : ι} {entry : CacheEntry} :
      (s.clients c).phase = .arrived → s.cache (E.key c) = some entry →
      Step E s (.lookup c) (s.setPhase c (.hit entry))
  | lookupMiss {s : State ι} {c : ι} :
      (s.clients c).phase = .arrived → s.cache (E.key c) = none →
      Step E s (.lookup c) (s.setPhase c .missed)
  | lookupFailed {s : State ι} {c : ι} (e : ProxyError) :
      (s.clients c).phase = .arrived →
      Step E s (.lookup c) (s.setPhase c (.refused e))
  | joinOrStart {s : State ι} {c : ι} :
      (s.clients c).phase = .missed →
      Step E s (.joinOrStart c) (s.joinOrStartDownload E c)
  | awaitMeta {s : State ι} {c : ι} {d : Nat} {rx : Receiver} {initial : List Bytes}
      {m : ResponseMeta} :
      (s.clients c).phase = .waiting rx initial → (s.clients c).download = some d →
      (s.states d).metaTx.waitFor Option.isSome = .ready (some (.ok m)) →
      Step E s (.awaitMeta c) (s.setPhase c (.answered rx initial m))
  | awaitError {s : State ι} {c : ι} {d : Nat} {rx : Receiver} {initial : List Bytes}
      {text : Str} :
      (s.clients c).phase = .waiting rx initial → (s.clients c).download = some d →
      (s.states d).metaTx.waitFor Option.isSome = .ready (some (.error text)) →
      Step E s (.awaitMeta c)
        ((s.modifyState d DownloadState.dropMeta).setPhase c (.refused (.network text)))
  -- the sender of the headers was dropped before it sent any
  | awaitClosed {s : State ι} {c : ι} {d : Nat} {rx : Receiver} {initial : List Bytes}
      {task : Task ι} :
      (s.clients c).phase = .waiting rx initial → (s.clients c).download = some d →
      s.tasks d = some task → (s.states d).metaTx.waitFor Option.isSome = .closed →
      Step E s (.awaitMeta c)
        ((s.modifyState d DownloadState.dropMeta).setPhase c
          (.refused (.network (closedText task c))))
  | build {s : State ι} {c : ι} {d : Nat} {rx : Receiver} {initial : List Bytes}
      {m : ResponseMeta} :
      (s.clients c).phase = .answered rx initial m → (s.clients c).download = some d →
      Step E s (.build c)
        ((s.modifyState d DownloadState.dropMeta).setPhase c
          (.streaming m (.new rx initial)))
  | poll {s : State ι} {c : ι} {d : Nat} {m : ResponseMeta} {body : StreamingBody} :
      (s.clients c).phase = .streaming m body → (s.clients c).download = some d →
      Step E s (.poll c)
        (s.setClient c ((s.clients c).polled m (body.pollFrame (s.states d).sender)))
  | disconnectWaiting {s : State ι} {c : ι} {d : Nat} {rx : Receiver} {initial : List Bytes} :
      (s.clients c).phase = .waiting rx initial → (s.clients c).download = some d →
      Step E s (.disconnect c) ((s.modifyState d DownloadState.dropMeta).setPhase c .gone)
  | disconnectAnswered {s : State ι} {c : ι} {d : Nat} {rx : Receiver} {initial : List Bytes}
      {m : ResponseMeta} :
      (s.clients c).phase = .answered rx initial m → (s.clients c).download = some d →
      Step E s (.disconnect c) ((s.modifyState d DownloadState.dropMeta).setPhase c .gone)
  | disconnect {s : State ι} {c : ι} :
      (∀ rx initial, (s.clients c).phase ≠ .waiting rx initial) →
      (∀ rx initial m, (s.clients c).phase ≠ .answered rx initial m) →
      Step E s (.disconnect c) (s.setPhase c .gone)
  -- tasks
  | fetch {s : State ι} {d : Nat} {t : Task ι} :
      s.tasks d = some t → t.phase = .spawned →
      Step E s (.fetch d) (s.setTask d { t with phase := .requested })
  | respond {s : State ι} {d : Nat} {t : Task ι} {resp : Response} :
      s.tasks d = some t → t.phase = .requested →
      Step E s (.respond d resp)
        ((s.setResponseMeta t.key (metaOf resp)).setTask d
          { t with phase := .streaming, response := some resp })
  | chunk {s : State ι} {d : Nat} {t : Task ι} {resp : Response} {bytes : Bytes} :
      s.tasks d = some t → t.phase = .streaming → t.response = some resp →
      t.totalSize + bytes.length ≤ E.config.security.maxBodySize →
      Step E s (.chunk d bytes)
        ((s.addChunk t.key bytes).setTask d (t.receive resp bytes))
  -- the chunk that exceeds `max_body_size` is neither kept nor passed on
  | oversized {s : State ι} {d : Nat} {t : Task ι} {bytes : Bytes} :
      s.tasks d = some t → t.phase = .streaming →
      E.config.security.maxBodySize < t.totalSize + bytes.length →
      Step E s (.oversized d bytes)
        (s.setTask d
          { t with
            phase := .failed
            upstream := t.upstream ++ [bytes]
            failure := some (.validationFailed "Response body too large".toList) })
  | bodyEnd {s : State ι} {d : Nat} {t : Task ι} :
      s.tasks d = some t → t.phase = .streaming →
      Step E s (.bodyEnd d) (s.setTask d { t with phase := .received, bodyComplete := true })
  | store {s : State ι} {d : Nat} {t : Task ι} {now : Nat} (h : t.cacheBuf.length < 2 ^ 63) :
      s.tasks d = some t → t.phase = .received →
      Step E s (.store d now) ((s.store E t now h).setTask d { t with phase := .succeeded })
  /-- The error of `cache.put` is only logged. -/
  | storeFailed {s : State ι} {d : Nat} {t : Task ι} :
      s.tasks d = some t → t.phase = .received →
      Step E s (.storeFailed d) (s.setTask d { t with phase := .succeeded })
  -- the request body, the request, a timeout or a frame gave an error
  | fail {s : State ι} {d : Nat} {t : Task ι} {e : ProxyError} :
      s.tasks d = some t →
      t.phase = .spawned ∨ t.phase = .requested ∨ t.phase = .streaming →
      Step E s (.fail d e) (s.setTask d { t with phase := .failed, failure := some e })
  | publishError {s : State ι} {d : Nat} {t : Task ι} {e : ProxyError} :
      s.tasks d = some t → t.phase = .failed → t.failure = some e →
      Step E s (.publishError d)
        ((s.setResponseError t.key e.toText).setTask d { t with phase := .errorPublished })
  | sendError {s : State ι} {d : Nat} {t : Task ι} {e : ProxyError} :
      s.tasks d = some t → t.phase = .errorPublished → t.failure = some e →
      Step E s (.sendError d)
        ((s.modifyState d (fun st => st.report (.error e.toText))).setTask d
          { t with phase := .errorSent })
  | sendComplete {s : State ι} {d : Nat} {t : Task ι} :
      s.tasks d = some t → t.phase = .succeeded →
      Step E s (.sendComplete d)
        ((s.modifyState d (fun st => st.report .complete)).setTask d
          { t with phase := .completeSent })
  | panic {s : State ι} {d : Nat} {t : Task ι} :
      s.tasks d = some t → t.phase.Running →
      Step E s (.panic d) (s.setTask d { t with phase := .panicked })
  -- the guard is dropped, after a panic too, and the task's own sender after it
  | completeDownload {s : State ι} {d : Nat} {t : Task ι} :
      s.tasks d = some t →
      t.phase = .completeSent ∨ t.phase = .errorSent ∨ t.phase = .panicked →
      Step E s (.completeDownload d)
        ((s.completeDownload t.key).setTask d { t with phase := .released })
  | endTask {s : State ι} {d : Nat} {t : Task ι} :
      s.tasks d = some t → t.phase = .released →
      Step E s (.endTask d)
        ((s.modifyState d DownloadState.dropTask).setTask d { t with phase := .ended })
  -- the cache
  | evict {s : State ι} {key : CacheKey} :
      Step E s (.evict key) { s with cache := Function.update s.cache key none }
  /-- The disk, which knows keys by their hash, may still hold any entry that was put. -/
  | restore {s : State ι} {key key' : CacheKey} {entry : CacheEntry} :
      (key', entry) ∈ s.written → key'.hash = key.hash →
      Step E s (.restore key entry) { s with cache := Function.update s.cache key (some entry) }

/-- A client that comes after a download has stored its response gets it from the cache. -/
theorem Step.lookupStored {E : Env ι} {s : State ι} {d now ttl : Nat} {t t' : Task ι} {c : ι}
    {resp : Response} {h : t.cacheBuf.length < 2 ^ 63}
    (hphase : (s.clients c).phase = .arrived) (hkey : E.key c = t.key)
    (hresp : t.response = some resp) (hcacheable : cacheable resp = true)
    (httl : Proxy.storedTtl E.parseHttpDate E.config now t.key.uri
      (Proxy.filterHeaders resp.headers) = some ttl) :
    Step E ((s.store E t now h).setTask d t') (.lookup c)
      (((s.store E t now h).setTask d t').setPhase c
        (.hit (State.entryOf t resp now ttl h))) := by
  refine .lookupHit hphase ?_
  simp [State.store, State.stored_of_cacheable hresp hcacheable httl, hkey]

end Step

/-! ## An environment

Every client asks for the same page, each with its own cookie. -/

def exampleEnv : Env Nat where
  sha256 := fun _ => exampleKey.hash
  parseHttpDate := fun _ => none
  config := .default
  request := fun c =>
    { method := "GET".toList
      uri :=
        { scheme := some "http".toList
          authority := some "example.com".toList
          text := "http://example.com/".toList }
      headers := [("cookie".toList, .ofText (Nat.repr c).toList)] }

/-- The same page, asked for with other headers. -/
def pageEnv (headers : Nat → HeaderMap) : Env Nat :=
  { exampleEnv with request := fun c => { exampleEnv.request c with headers := headers c } }

/-- An answer that says nothing about its life is kept for a week. -/
theorem storedTtl_exampleEnv : Proxy.storedTtl exampleEnv.parseHttpDate exampleEnv.config 0
    "http://example.com/".toList (Proxy.filterHeaders []) = some (7 * 24 * 60 * 60) := by
  decide +kernel

theorem storedTtl_pageEnv (headers : Nat → HeaderMap) :
    Proxy.storedTtl (pageEnv headers).parseHttpDate (pageEnv headers).config 0
      "http://example.com/".toList (Proxy.filterHeaders []) = some (7 * 24 * 60 * 60) :=
  storedTtl_exampleEnv

end Inflight
end Squiddish
