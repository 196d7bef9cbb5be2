import Squiddish.Inflight.Progress
import Squiddish.Proxy.Handler

/-!
# Handlers — the programs of `handler.rs` keep to the protocol

`System` takes a request in large steps: one for all that `handle_cacheable_request` does between the
registry and the wait for the headers, one for an error and the drop of the receiver that goes with
it.  Here every client runs the program `handle`, one operation at a time, whatever its request is,
and any other client or task may move in between.

* `WorldStep` : the handlers, the bodies, the tasks and the cache, side by side;
* `represents_of_run` : what they do is a run of `System`, in which each handler stands for a client.
-/

namespace Squiddish
namespace Inflight

open Lib Cache Proxy

variable {ι : Type} {E : Env ι}

/-! ## The shared state -/

/-- What the requests share. -/
structure Shared (ι : Type) where
  downloads : Str → Option Nat
  states : Nat → DownloadState
  tasks : Nat → Option (Task ι)
  next : Nat
  cache : CacheKey → Option CacheEntry
  written : List (CacheKey × CacheEntry)

namespace Shared

def modifyState (sh : Shared ι) (d : Nat) (f : DownloadState → DownloadState) : Shared ι :=
  { sh with states := Function.update sh.states d (f (sh.states d)) }

def spawn (sh : Shared ι) (d : Nat) (t : Task ι) : Shared ι :=
  { sh with tasks := Function.update sh.tasks d (some t) }

/-- `join_or_start_download` when nothing is registered. -/
def register (sh : Shared ι) (key : CacheKey) : Shared ι :=
  { sh with
    downloads := Function.update sh.downloads key.hashHex (some sh.next)
    states := Function.update sh.states sh.next .new
    next := sh.next + 1 }

/-- The state of the system without its clients. -/
def toState (sh : Shared ι) : State ι :=
  { downloads := sh.downloads, states := sh.states, tasks := sh.tasks, next := sh.next
    clients := fun _ => .new, cache := sh.cache, written := sh.written }

end Shared

def State.shared (s : State ι) : Shared ι :=
  { downloads := s.downloads, states := s.states, tasks := s.tasks, next := s.next
    cache := s.cache, written := s.written }

/-- What an operation of the handler of the client `c` may answer, and what it leaves. -/
def Performs (c : ι) : (op : HandlerOp) → Shared ι → op.Answer → Shared ι → Prop
  | .cacheGet key, sh, r, sh' =>
      sh' = sh ∧ (r = .ok (sh.cache key) ∨ ∃ e, r = .error e)
  | .joinOrStart key, sh, r, sh' =>
      match sh.downloads key.hashHex with
      | some d =>
          r = .joined d (sh.states d).sender.subscribe (sh.states d).accumulated ∧
            sh' = sh.modifyState d DownloadState.subscribeMeta
      | none => r = .started sh.next ∧ sh' = sh.register key
  | .subscribe d, sh, r, sh' => sh' = sh ∧ r = (sh.states d).sender.subscribe
  | .spawnDownload d key req, sh, _, sh' => sh' = sh.spawn d (Task.new key c req)
  | .waitMeta d, sh, r, sh' =>
      sh' = sh ∧
        match r with
        | some result => (sh.states d).metaTx.waitFor Option.isSome = .ready (some result)
        | none => (sh.states d).metaTx.waitFor Option.isSome = .closed
  | .dropMeta d, sh, _, sh' => sh' = sh.modifyState d DownloadState.dropMeta
  | _, sh, _, sh' => sh' = sh

/-- The operations at which a handler is suspended, so that it may be dropped there. -/
def Suspends : HandlerOp → Prop
  | .cacheGet _ | .connect _ | .requestBody | .fetch _ _ => True
  | _ => False

/-! ## The threads -/

/-- What becomes of a request: its handler, then the response on its way to the client. -/
inductive Thread
  | running (p : HandlerProg (Outcome ClientResponse))
  | streaming (d : Nat) (head : Head) (body : StreamingBody) (received : List Bytes)
    (ending : Option (Except Str Unit))
  | answered (response : FullResponse)
  | closed

namespace Thread

/-- The handler has returned; a panic closes the connection. -/
def ofOutcome : Outcome ClientResponse → Thread
  | .ok (.full response) => .answered response
  | .ok (.streaming d head body) => .streaming d head body [] none
  | .error _ => .closed

/-- After one poll of the body. -/
def polled (d : Nat) (head : Head) (received : List Bytes) (ending : Option (Except Str Unit)) :
    PollResult × StreamingBody → Thread
  | (.pending, body) => .streaming d head body received ending
  | (.frame bytes, body) => .streaming d head body (received ++ [bytes]) ending
  | (.error text, body) => .streaming d head body received (ending.or (some (.error text)))
  | (.done, body) => .streaming d head body received (ending.or (some (.ok ())))

end Thread

/-- The handlers and what they share. -/
structure World (ι : Type) where
  shared : Shared ι
  threads : ι → Thread

/-- Every client has sent its request, and nothing has happened. -/
def World.init (E : Env ι) : World ι :=
  { shared := State.init.shared
    threads := fun c => .running (handle E.sha256 E.config.security (E.request c)) }

inductive WorldAction (ι : Type)
  /-- The handler performs its next operation. -/
  | call (c : ι)
  | reply (c : ι)
  | poll (c : ι)
  /-- The client is gone: its handler or its body is dropped. -/
  | close (c : ι)
  /-- A task or the cache moves. -/
  | move (a : Action ι)

/-- The steps of clients, which their threads take here. -/
def Action.OfClient : Action ι → Prop
  | .lookup _ | .joinOrStart _ | .awaitMeta _ | .build _ | .poll _ | .disconnect _ => True
  | _ => False

section Steps

variable [DecidableEq ι]

def World.setThread (w : World ι) (c : ι) (th : Thread) : World ι :=
  { w with threads := Function.update w.threads c th }

@[simp] theorem World.shared_setThread (w : World ι) (c : ι) (th : Thread) :
    (w.setThread c th).shared = w.shared := rfl

@[simp] theorem World.threads_setThread (w : World ι) (c : ι) (th : Thread) :
    (w.setThread c th).threads = Function.update w.threads c th := rfl

inductive WorldStep (E : Env ι) : World ι → WorldAction ι → World ι → Prop
  | call {w : World ι} {c : ι} {op : HandlerOp}
      {next : op.Answer → HandlerProg (Outcome ClientResponse)} {r : op.Answer}
      {sh' : Shared ι} :
      w.threads c = .running (.call op next) → Performs c op w.shared r sh' →
      WorldStep E w (.call c) ({ w with shared := sh' }.setThread c (.running (next r)))
  | reply {w : World ι} {c : ι} {r : Outcome ClientResponse} :
      w.threads c = .running (.ret r) →
      WorldStep E w (.reply c) (w.setThread c (.ofOutcome r))
  | poll {w : World ι} {c : ι} {d : Nat} {head : Head} {body : StreamingBody}
      {received : List Bytes} {ending : Option (Except Str Unit)} :
      w.threads c = .streaming d head body received ending →
      WorldStep E w (.poll c)
        (w.setThread c
          (.polled d head received ending (body.pollFrame (w.shared.states d).sender)))
  -- the receiver of the headers is dropped with the handler that waits for them
  | closeWaiting {w : World ι} {c : ι} {d : Nat}
      {next : Option ResponseMetaResult → HandlerProg (Outcome ClientResponse)} :
      w.threads c = .running (.call (.waitMeta d) next) →
      WorldStep E w (.close c)
        ({ w with shared := w.shared.modifyState d DownloadState.dropMeta }.setThread c .closed)
  | closeSuspended {w : World ι} {c : ι} {op : HandlerOp}
      {next : op.Answer → HandlerProg (Outcome ClientResponse)} :
      w.threads c = .running (.call op next) → Suspends op →
      WorldStep E w (.close c) (w.setThread c .closed)
  | closeStreaming {w : World ι} {c : ι} {d : Nat} {head : Head} {body : StreamingBody}
      {received : List Bytes} {ending : Option (Except Str Unit)} :
      w.threads c = .streaming d head body received ending →
      WorldStep E w (.close c) (w.setThread c .closed)
  | move {w : World ι} {a : Action ι} {s' : State ι} :
      ¬ a.OfClient → Step E w.shared.toState a s' →
      WorldStep E w (.move a) { w with shared := s'.shared }

end Steps

/-! ## Which client a thread stands for -/

/-- The operations that have nothing to do with the cache and the downloads. -/
def Harmless : HandlerOp → Prop
  | .connect _ | .tryAcquire | .spawnTunnel _ | .requestBody | .fetch _ _ | .now | .date => True
  | _ => False

/-- The thread will not come to the cache and the downloads again, and what it returns is `P`. -/
def Thread.Outside (P : Outcome ClientResponse → Prop) : Thread → Prop
  | .running p => Prog.OnlyCalls Harmless p ∧ Prog.OnlyReturns P p
  | .streaming _ _ _ _ _ => False
  | .answered response => P (.ok (.full response))
  | .closed => True

/-- The thread has got where the client is. -/
inductive Matches (E : Env ι) (c : ι) (states : Nat → DownloadState) : Thread → Client → Prop
  /-- The request does not reach the cache. -/
  | never {th : Thread} {client : Client} :
      ¬ Served E.config.security (E.request c) → client.phase = .arrived →
      th.Outside Unstreamed → Matches E c states th client
  /-- The request has failed. -/
  | settled {th : Thread} {client : Client} :
      client.phase.Settled → th.Outside Page → Matches E c states th client
  | lookup {client : Client} :
      client.phase = .arrived →
      Matches E c states
        (.running (.call (.cacheGet (E.key c)) (fun r => afterCacheGet (E.request c) (E.key c) r >>= finish))) client
  | hit {client : Client} {entry : CacheEntry} :
      client.phase = .hit entry →
      Matches E c states
        (.running (.call .now
          (fun now => .ret (.ok (.full (buildResponseFromCache entry now)))))) client
  | hitReply {client : Client} {entry : CacheEntry} {now : Nat} :
      client.phase = .hit entry →
      Matches E c states
        (.running (.ret (.ok (.full (buildResponseFromCache entry now))))) client
  | missed {client : Client} :
      client.phase = .missed →
      Matches E c states
        (.running (.call (.joinOrStart (E.key c)) (fun action => afterJoin (E.request c) (E.key c) action >>= finish)))
        client
  | subscribe {client : Client} {d : Nat} :
      client.phase = .waiting DownloadState.new.sender.subscribe [] → client.download = some d →
      Matches E c states
        (.running (.call (.subscribe d) (fun receiver =>
          .call (.spawnDownload d (E.key c) (E.request c)) (fun _ =>
            awaitMeta startClosed d receiver [] >>= finish)))) client
  | spawn {client : Client} {d : Nat} :
      client.phase = .waiting DownloadState.new.sender.subscribe [] → client.download = some d →
      Matches E c states
        (.running (.call (.spawnDownload d (E.key c) (E.request c)) (fun _ =>
          awaitMeta startClosed d DownloadState.new.sender.subscribe [] >>= finish))) client
  | wait {client : Client} {closed : Str} {d : Nat} {rx : Receiver} {initial : List Bytes} :
      client.phase = .waiting rx initial → client.download = some d →
      Matches E c states
        (.running (.call (.waitMeta d) (fun r =>
          .call (.dropMeta d) (fun _ => finish (streamMeta closed d rx initial r))))) client
  | headers {client : Client} {closed : Str} {d : Nat} {rx : Receiver} {initial : List Bytes}
      {m : ResponseMeta} :
      client.phase = .answered rx initial m → client.download = some d →
      Matches E c states
        (.running (.call (.dropMeta d) (fun _ =>
          finish (streamMeta closed d rx initial (some (.ok m)))))) client
  -- the receiver has been told of an error, which is there to stay, and is about to be dropped
  | failed {client : Client} {closed text : Str} {d : Nat} {rx : Receiver}
      {initial : List Bytes} :
      client.phase = .waiting rx initial → client.download = some d →
      (states d).metaTx.value = some (.error text) →
      Matches E c states
        (.running (.call (.dropMeta d) (fun _ =>
          finish (streamMeta closed d rx initial (some (.error text)))))) client
  | abandoned {client : Client} {closed : Str} {d : Nat} {rx : Receiver}
      {initial : List Bytes} :
      client.phase = .waiting rx initial → client.download = some d →
      (states d).metaTx.value = none → (states d).metaTx.senderAlive = false →
      Matches E c states
        (.running (.call (.dropMeta d) (fun _ =>
          finish (streamMeta closed d rx initial none)))) client
  | reply {client : Client} {d : Nat} {head : Head} {m : ResponseMeta} {rx : Receiver}
      {initial : List Bytes} :
      client.phase = .streaming m (.new rx initial) → client.download = some d →
      client.received = [] → client.ending = none → buildStreamingResponse m = .ok head →
      Matches E c states
        (.running (.ret (.ok (.streaming d head (.new rx initial))))) client
  | streaming {client : Client} {d : Nat} {head : Head} {m : ResponseMeta} {body : StreamingBody} :
      client.phase = .streaming m body → client.download = some d →
      buildStreamingResponse m = .ok head →
      Matches E c states
        (.streaming d head body client.received client.ending) client
  | answered {client : Client} {entry : CacheEntry} {now : Nat} :
      client.phase = .hit entry →
      Matches E c states (.answered (buildResponseFromCache entry now)) client

/-- The thread is about to spawn the task of `d`. -/
def Thread.Starting (th : Thread) (d : Nat) : Prop :=
  ∃ p, th = .running p ∧
    (p.pending = some (.subscribe d) ∨ ∃ key req, p.pending = some (.spawnDownload d key req))

/-- The state of the system says all there is to say about the threads: every thread stands for a
client, and a task that has not been spawned yet for one that has not been sent upstream. -/
structure Represents (E : Env ι) (w : World ι) (s : State ι) : Prop where
  downloads : s.downloads = w.shared.downloads
  states : s.states = w.shared.states
  next : s.next = w.shared.next
  cache : s.cache = w.shared.cache
  written : s.written = w.shared.written
  tasks : ∀ d t, w.shared.tasks d = some t → s.tasks d = some t
  unspawned : ∀ d t, s.tasks d = some t → w.shared.tasks d = none →
    ∃ c, (w.threads c).Starting d ∧ t = Task.new (E.key c) c (E.request c)
  starting : ∀ c d, (w.threads c).Starting d →
    w.shared.tasks d = none ∧ s.tasks d = some (Task.new (E.key c) c (E.request c))
  threads : ∀ c, Matches E c s.states (w.threads c) (s.clients c)

/-! ## What a receiver has been told stays -/

/-- The task may still publish headers or an error. -/
def TaskPhase.MayPublish (phase : TaskPhase) : Prop :=
  phase.Reading ∨ phase = .failed

/-- Once the headers are an error, or their sender is gone, nothing more is published. -/
structure Quiet (t : Task ι) (st : DownloadState) : Prop where
  told : ∀ text, st.metaTx.value = some (.error text) → ¬ t.phase.MayPublish
  dropped : st.metaTx.senderAlive = false → ¬ t.phase.MayPublish

namespace Quiet

variable {t t' : Task ι} {st st' : DownloadState}

theorem of_late (h : ¬ t'.phase.MayPublish) : Quiet t' st' :=
  ⟨fun _ _ => h, fun _ => h⟩

/-- Before the last publication there is neither an error nor the end of the sender. -/
theorem of_early (h : Quiet t st) (hphase : t.phase.MayPublish)
    (hvalue : ∀ text, st'.metaTx.value = some (.error text) →
      st.metaTx.value = some (.error text))
    (hsender : st'.metaTx.senderAlive = st.metaTx.senderAlive) : Quiet t' st' where
  told := fun text htext => absurd hphase (h.told text (hvalue text htext))
  dropped := fun hgone => absurd hphase (h.dropped (hsender ▸ hgone))

theorem senderAlive_publish (st : DownloadState) (r : ResponseMetaResult) :
    (st.publish r).metaTx.senderAlive = st.metaTx.senderAlive := by
  unfold DownloadState.publish Watch.send
  split <;> rfl

theorem step {d : Nat} {a : Action ι} (h : Quiet t st)
    (hmove : DownloadStep E d a t st t' st') : Quiet t' st' := by
  cases hmove with
  | receivers n =>
      exact ⟨h.told, h.dropped⟩
  | fetch hphase | chunk hphase _ _ | oversized hphase =>
      exact h.of_early (by simp [TaskPhase.MayPublish, TaskPhase.Reading, hphase])
        (fun _ htext => htext) rfl
  | fail hphase =>
      exact h.of_early (Or.inl hphase) (fun _ htext => htext) rfl
  | @respond _ _ resp hphase =>
      refine h.of_early (by simp [TaskPhase.MayPublish, TaskPhase.Reading, hphase]) ?_
        (senderAlive_publish _ _)
      intro text htext
      -- the headers are sent, or nobody is there to receive them
      rcases Watch.value_send st.metaTx (some (.ok (metaOf resp))) with hsent | hkept
      · have hboth := hsent.symm.trans htext
        simp at hboth
      · exact hkept.symm.trans htext
  | bodyEnd _ | store _ | storeFailed _ | publishError _ _ | sendError _ _ | sendComplete _
  | panic _ | completeDownload _ | endTask _ =>
      exact .of_late (by simp [TaskPhase.MayPublish, TaskPhase.Reading])

end Quiet

/-- What a receiver of the headers has been told, it is told again. -/
structure StaysTold (st st' : DownloadState) : Prop where
  error : ∀ text, st.metaTx.value = some (.error text) → st'.metaTx.value = some (.error text)
  closed : st.metaTx.value = none → st.metaTx.senderAlive = false →
    st'.metaTx.value = none ∧ st'.metaTx.senderAlive = false

theorem StaysTold.of_same {st st' : DownloadState} (hvalue : st'.metaTx.value = st.metaTx.value)
    (hsender : st.metaTx.senderAlive = false → st'.metaTx.senderAlive = false) :
    StaysTold st st' where
  error := fun _ h => hvalue.trans h
  closed := fun h hgone => ⟨hvalue.trans h, hsender hgone⟩

theorem DownloadStep.staysTold {d : Nat} {a : Action ι} {t t' : Task ι} {st st' : DownloadState}
    (hmove : DownloadStep E d a t st t' st') (h : Quiet t st) : StaysTold st st' := by
  cases hmove with
  | respond hphase | publishError hphase _ =>
      have hmay : t.phase.MayPublish := by
        simp [TaskPhase.MayPublish, TaskPhase.Reading, hphase]
      exact ⟨fun text htext => absurd hmay (h.told text htext),
        fun _ hgone => absurd hmay (h.dropped hgone)⟩
  | completeDownload _ =>
      exact .of_same rfl (fun _ => rfl)
  | _ =>
      exact .of_same rfl (fun h => h)

/-- What the simulation knows of the state of the system. -/
structure Tracked (s : State ι) : Prop extends Provided s where
  quiet : ∀ d t, s.tasks d = some t → Quiet t (s.states d)

namespace Tracked

theorem init : Tracked (State.init : State ι) where
  toProvided := .init
  quiet := by simp [State.init]

variable [DecidableEq ι] {s s' : State ι} {a : Action ι}

theorem step (h : Tracked s) (hstep : Step E s a s') : Tracked s' where
  toProvided := h.toProvided.step hstep
  quiet := by
    refine h.delivering.registered.downloads_step (P := Quiet) hstep ?_ ?_ h.quiet
    · intro c _
      exact ⟨fun _ htext => by simp [DownloadState.new, Watch.channel] at htext,
        fun hgone => by simp [DownloadState.new, Watch.channel] at hgone⟩
    · intro d t t' _ hmove hquiet
      exact hquiet.step hmove

theorem staysTold (h : Tracked s) (hstep : Step E s a s') {d : Nat} {t : Task ι}
    (ht : s.tasks d = some t) : StaysTold (s.states d) (s'.states d) := by
  rcases h.delivering.registered.moves hstep d t ht with ⟨t', -, hmove⟩
  exact hmove.staysTold (h.quiet d t ht)

end Tracked

theorem Matches.congr_states {c : ι} {states states' : Nat → DownloadState} {th : Thread}
    {client : Client} (h : Matches E c states th client)
    (htold : ∀ d, client.download = some d → StaysTold (states d) (states' d)) :
    Matches E c states' th client := by
  cases h with
  | never hserved hphase hout => exact .never hserved hphase hout
  | settled hphase hout => exact .settled hphase hout
  | lookup hphase => exact .lookup hphase
  | hit hphase => exact .hit hphase
  | hitReply hphase => exact .hitReply hphase
  | missed hphase => exact .missed hphase
  | subscribe hphase hd => exact .subscribe hphase hd
  | spawn hphase hd => exact .spawn hphase hd
  | wait hphase hd => exact .wait hphase hd
  | headers hphase hd => exact .headers hphase hd
  | failed hphase hd hvalue => exact .failed hphase hd ((htold _ hd).error _ hvalue)
  | abandoned hphase hd hvalue hgone =>
      rcases (htold _ hd).closed hvalue hgone with ⟨hvalue', hgone'⟩
      exact .abandoned hphase hd hvalue' hgone'
  | reply hphase hd hreceived hending hhead =>
      exact .reply hphase hd hreceived hending hhead
  | streaming hphase hd hhead => exact .streaming hphase hd hhead
  | answered hphase => exact .answered hphase

variable [DecidableEq ι]

/-- A thread whose client does not move stays with it. -/
theorem Tracked.keeps {s s' : State ι} {a : Action ι} {c : ι} {th : Thread} (h : Tracked s)
    (hstep : Step E s a s')
    (hmatch : Matches E c s.states th (s.clients c)) :
    Matches E c s'.states th (s.clients c) := by
  refine hmatch.congr_states ?_
  intro d hd
  rcases h.delivering.registered.attached c d hd with ⟨t, ht⟩
  exact h.staysTold hstep ht

end Inflight
end Squiddish
