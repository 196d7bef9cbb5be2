import Squiddish.Lib.Pool
import Squiddish.Lib.Runs
import Squiddish.Proxy.Connect

/-!
# Connections — the permits of HTTP connections and of tunnels

The accept loop of `proxy/mod.rs` spawns a task for each connection it admits, and `handle_connect`
one for each tunnel.  Every task holds one permit of a common semaphore until it ends; a CONNECT
socket goes over from the first task to the second while both are alive.

* `connections_bounded` : the open sockets never exceed the limit, and no permit is lost;
* `connectAnswered_iff` : the runs in which no CONNECT finds the permits used up.
-/

namespace Squiddish
namespace Proxy

open Lib

/-! ## The tasks -/

/-- What a task is doing.  Sockets are numbered as they are accepted. -/
inductive Work
  /-- The connection reads a request, or another handler than `handle_connect` runs. -/
  | serving (socket : Nat)
  /-- `handle_connect` waits for the target. -/
  | connecting (socket : Nat) (target : Str)
  /-- The tunnel task has been spawned, and the 200 is on its way to the client. -/
  | upgrading (socket tunnel : Nat)
  /-- The socket has been handed over, and the connection task is about to end. -/
  | handedOver
  /-- The tunnel task waits for the upgrade. -/
  | waiting
  | tunnelling (socket : Nat)
  deriving DecidableEq, Repr

/-- The client socket the task owns. -/
def Work.socket : Work → Option Nat
  | .serving socket => some socket
  | .connecting socket _ => some socket
  | .upgrading socket _ => some socket
  | .handedOver => none
  | .waiting => none
  | .tunnelling socket => some socket

/-- The end of `TcpStream::connect` under its timeout. -/
inductive Dial
  | connected
  | timedOut
  | failed (text : Str)
  deriving DecidableEq, Repr

def maxConnectionsReached : Failure :=
  .error (.tunnel "Max connections reached".toList)

/-- `handle_connect` behind the dial: the permit is tried for once the target has answered. -/
def afterDial (target : Str) (dial : Dial) (available : Nat) : Outcome Unit :=
  match dial with
  | .timedOut =>
      .error (.error (.tunnel ("Connection to ".toList ++ target ++ " timed out".toList)))
  | .failed text =>
      .error (.error (.tunnel ("Failed to connect to ".toList ++ target ++ ": ".toList ++ text)))
  | .connected => if 0 < available then .ok () else .error maxConnectionsReached

theorem afterDial_eq_ok {target : Str} {dial : Dial} {available : Nat} :
    afterDial target dial available = .ok () ↔ dial = .connected ∧ 0 < available := by
  cases dial with
  | connected =>
      by_cases hfree : 0 < available <;> simp [afterDial, hfree]
  | timedOut =>
      simp [afterDial]
  | failed text =>
      simp [afterDial]

theorem afterDial_connected_eq_error (target : Str) {available : Nat} {e : Failure} :
    afterDial target .connected available = .error e ↔
      available = 0 ∧ e = maxConnectionsReached := by
  by_cases hfree : available = 0
  · simp [afterDial, hfree, eq_comm]
  · simp [afterDial, hfree, Nat.pos_of_ne_zero hfree]

/-! ## The server -/

structure Server where
  pool : Pool Work
  accepted : Nat
  deriving DecidableEq, Repr

namespace Server

def start (maxConnections : Nat) : Server :=
  { pool := .start maxConnections, accepted := 0 }

/-- The client sockets that are served. -/
def openSockets (s : Server) : List Nat :=
  s.pool.collect Work.socket

end Server

inductive Event
  | accept
  /-- A request other than CONNECT. -/
  | request (id : Nat)
  | connect (id : Nat) (req : Request)
  | dial (id : Nat) (dial : Dial) (answer : Outcome Unit)
  | upgrade (id : Nat)
  /-- A task ends: its client or its target is gone, an error, a timeout, a panic or an abort. -/
  | finish (id : Nat)
  deriving DecidableEq, Repr

/-- The socket of an upgraded connection goes to the tunnel task, or is closed when that has given
up. -/
def handOver (socket tunnel : Nat) (p : Pool Work) : Pool Work :=
  if (tunnel, .waiting) ∈ p.tasks then p.become tunnel (.tunnelling socket) else p

inductive ServerStep (security : SecurityConfig) : Server → Event → Server → Prop
  | serve {s : Server} :
      0 < s.pool.available →
      ServerStep security s .accept
        { pool := s.pool.spawn (.serving s.accepted), accepted := s.accepted + 1 }
  /-- Without a permit the stream is dropped. -/
  | reject {s : Server} :
      s.pool.available = 0 →
      ServerStep security s .accept { s with accepted := s.accepted + 1 }
  | request {s : Server} {id socket : Nat} :
      (id, .serving socket) ∈ s.pool.tasks →
      ServerStep security s (.request id) s
  | refuse {s : Server} {id socket : Nat} {req : Request} {e : ProxyError} :
      (id, .serving socket) ∈ s.pool.tasks →
      connectTarget security req = .error (.error e) →
      ServerStep security s (.connect id req) s
  | connect {s : Server} {id socket : Nat} {req : Request} {target : Str} :
      (id, .serving socket) ∈ s.pool.tasks →
      connectTarget security req = .ok target →
      ServerStep security s (.connect id req)
        { s with pool := s.pool.become id (.connecting socket target) }
  | dialFailed {s : Server} {id socket : Nat} {target : Str} {dial : Dial} {e : Failure} :
      (id, .connecting socket target) ∈ s.pool.tasks →
      afterDial target dial s.pool.available = .error e →
      ServerStep security s (.dial id dial (.error e))
        { s with pool := s.pool.become id (.serving socket) }
  | dialled {s : Server} {id socket : Nat} {target : Str} {dial : Dial} :
      (id, .connecting socket target) ∈ s.pool.tasks →
      afterDial target dial s.pool.available = .ok () →
      ServerStep security s (.dial id dial (.ok ()))
        { s with pool := (s.pool.become id (.upgrading socket s.pool.spawned)).spawn .waiting }
  | upgrade {s : Server} {id socket tunnel : Nat} :
      (id, .upgrading socket tunnel) ∈ s.pool.tasks →
      ServerStep security s (.upgrade id)
        { s with pool := handOver socket tunnel (s.pool.become id .handedOver) }
  | finish {s : Server} {id : Nat} {w : Work} :
      (id, w) ∈ s.pool.tasks →
      ServerStep security s (.finish id) { s with pool := s.pool.finish id }

/-! ## Who owns a socket -/

/-- The permits balance, and every open socket is owned by one task. -/
structure Owned (maxConnections : Nat) (s : Server) : Prop where
  balanced : s.pool.Balanced maxConnections
  distinct : s.openSockets.Nodup
  accepted : ∀ socket ∈ s.openSockets, socket < s.accepted

section Owned

variable {maxConnections : Nat} {security : SecurityConfig} {s t : Server} {e : Event}

theorem Owned.start (maxConnections : Nat) : Owned maxConnections (.start maxConnections) where
  balanced := .start maxConnections
  distinct := List.nodup_nil
  accepted := by simp [Server.openSockets, Server.start, Pool.collect, Pool.start]

/-- The sockets after a step are some of those before it. -/
theorem Owned.of_sublist (h : Owned maxConnections s) {p : Pool Work}
    (hp : p.Balanced maxConnections) {sockets : List Nat} (hperm : s.openSockets.Perm sockets)
    (hsub : (p.collect Work.socket).Sublist sockets) :
    Owned maxConnections { s with pool := p } where
  balanced := hp
  distinct := (hperm.nodup_iff.1 h.distinct).sublist hsub
  accepted := fun socket hsocket => h.accepted socket (hperm.mem_iff.2 (hsub.subset hsocket))

/-- A task goes on with the socket it has. -/
theorem Owned.become (h : Owned maxConnections s) {id : Nat} {w w' : Work}
    (hmem : (id, w) ∈ s.pool.tasks) (hsocket : w'.socket = w.socket) :
    Owned maxConnections { s with pool := s.pool.become id w' } := by
  refine h.of_sublist (h.balanced.become hmem w') (h.balanced.perm_collect hmem) ?_
  rw [Pool.collect_become, hsocket]

theorem Owned.serve (h : Owned maxConnections s) (hfree : 0 < s.pool.available) :
    Owned maxConnections
      { pool := s.pool.spawn (.serving s.accepted), accepted := s.accepted + 1 } := by
  have hopen : (s.pool.spawn (.serving s.accepted)).collect Work.socket =
      s.accepted :: s.openSockets := Pool.collect_spawn _
  refine ⟨h.balanced.spawn hfree _, ?_, ?_⟩
  · rw [Server.openSockets, hopen]
    exact List.nodup_cons.2 ⟨fun hmem => Nat.lt_irrefl _ (h.accepted _ hmem), h.distinct⟩
  · rw [Server.openSockets, hopen]
    intro socket hsocket
    rcases List.mem_cons.1 hsocket with rfl | hold
    · exact Nat.lt_succ_self _
    · exact Nat.lt_succ_of_lt (h.accepted socket hold)

theorem Owned.spawnWaiting (h : Owned maxConnections s) (hfree : 0 < s.pool.available) :
    Owned maxConnections { s with pool := s.pool.spawn .waiting } := by
  refine h.of_sublist (h.balanced.spawn hfree _) (List.Perm.refl _) ?_
  rw [Pool.collect_spawn]
  exact List.Sublist.refl _

/-- The tunnel task gets the socket the connection task gives up. -/
theorem Owned.upgrade (h : Owned maxConnections s) {id socket tunnel : Nat}
    (hmem : (id, .upgrading socket tunnel) ∈ s.pool.tasks) :
    Owned maxConnections
      { s with pool := handOver socket tunnel (s.pool.become id .handedOver) } := by
  have hbalanced := h.balanced.become hmem .handedOver
  have hopen : s.openSockets.Perm (socket :: (s.pool.finish id).collect Work.socket) :=
    h.balanced.perm_collect hmem
  have hrest : (s.pool.become id .handedOver).collect Work.socket =
      (s.pool.finish id).collect Work.socket := Pool.collect_become _
  by_cases hwaiting : (tunnel, Work.waiting) ∈ (s.pool.become id .handedOver).tasks
  · rw [handOver, if_pos hwaiting]
    have hothers : ((s.pool.become id .handedOver).collect Work.socket).Perm
        (((s.pool.become id .handedOver).finish tunnel).collect Work.socket) :=
      hbalanced.perm_collect hwaiting
    have hnew : ((s.pool.become id .handedOver).become tunnel (.tunnelling socket)).collect
        Work.socket = socket ::
          ((s.pool.become id .handedOver).finish tunnel).collect Work.socket :=
      Pool.collect_become _
    rw [hrest] at hothers
    refine h.of_sublist (hbalanced.become hwaiting _) ?_ (List.Sublist.refl _)
    rw [hnew]
    exact hopen.trans (hothers.cons _)
  -- the tunnel task has given up, and the socket is closed
  · rw [handOver, if_neg hwaiting]
    refine h.of_sublist hbalanced hopen ?_
    rw [hrest]
    exact List.sublist_cons_self _ _

theorem Owned.finish (h : Owned maxConnections s) {id : Nat} {w : Work}
    (hmem : (id, w) ∈ s.pool.tasks) :
    Owned maxConnections { s with pool := s.pool.finish id } :=
  h.of_sublist (h.balanced.finish hmem) (h.balanced.perm_collect hmem)
    (List.sublist_append_right _ _)

/-- What every step keeps. -/
theorem ServerStep.owned (hstep : ServerStep security s e t) (h : Owned maxConnections s) :
    Owned maxConnections t := by
  cases hstep with
  | serve hfree =>
      exact h.serve hfree
  | reject =>
      exact ⟨h.balanced, h.distinct, fun socket hs => Nat.lt_succ_of_lt (h.accepted socket hs)⟩
  | request =>
      exact h
  | refuse =>
      exact h
  | connect hmem =>
      exact h.become hmem rfl
  | dialFailed hmem =>
      exact h.become hmem rfl
  | @dialled id socket target dial hmem hanswer =>
      have hupgrading : Owned maxConnections
          { s with pool := s.pool.become id (.upgrading socket s.pool.spawned) } :=
        h.become hmem rfl
      exact hupgrading.spawnWaiting (afterDial_eq_ok.1 hanswer).2
  | upgrade hmem =>
      exact h.upgrade hmem
  | finish hmem =>
      exact h.finish hmem

theorem owned_run {events : List Event}
    (h : Run (ServerStep security) (.start maxConnections) events t) : Owned maxConnections t :=
  h.invariant (fun _ _ _ hs hstep => hstep.owned hs) (.start maxConnections)

theorem ended_handOver {p : Pool Work} {socket tunnel id : Nat} (h : p.Ended id) :
    (handOver socket tunnel p).Ended id := by
  unfold handOver
  split
  · rename_i hwaiting
    exact h.become hwaiting _
  · exact h

/-- A task that has ended is never heard of again. -/
theorem ServerStep.ended (hstep : ServerStep security s e t) {id : Nat} (h : s.pool.Ended id) :
    t.pool.Ended id := by
  cases hstep with
  | serve =>
      exact h.spawn _
  | reject =>
      exact h
  | request =>
      exact h
  | refuse =>
      exact h
  | connect hmem =>
      exact h.become hmem _
  | dialFailed hmem =>
      exact h.become hmem _
  | dialled hmem =>
      exact (h.become hmem _).spawn _
  | upgrade hmem =>
      exact ended_handOver (h.become hmem _)
  | finish =>
      exact h.finish _

/-- The tasks whose end is among the events have ended. -/
theorem ended_of_run {events : List Event}
    (h : Run (ServerStep security) (.start maxConnections) events t) {id : Nat}
    (hid : .finish id ∈ events) : t.pool.Ended id := by
  have hall : Owned maxConnections t ∧ ∀ id, .finish id ∈ [] ++ events → t.pool.Ended id := by
    refine h.history (I := fun events s =>
      Owned maxConnections s ∧ ∀ id, .finish id ∈ events → s.pool.Ended id) ?_ ?_
    · rintro past s e t ⟨howned, hpast⟩ hstep
      refine ⟨hstep.owned howned, ?_⟩
      intro id hmem
      rcases List.mem_append.1 hmem with hold | hnew
      · exact hstep.ended (hpast id hold)
      · rw [← List.mem_singleton.1 hnew] at hstep
        cases hstep with
        | finish htask =>
            exact .of_finish howned.balanced htask
    · exact ⟨.start maxConnections, fun id hnone => by cases hnone⟩
  exact hall.2 id hid

end Owned

/-- In every reachable state the open client sockets are within the limit, and when all tasks have
ended all permits are free. -/
theorem connections_bounded (security : SecurityConfig) (maxConnections : Nat)
    {events : List Event} {t : Server}
    (h : Run (ServerStep security) (.start maxConnections) events t) :
    (t.openSockets.Nodup ∧ t.openSockets.length ≤ maxConnections) ∧
      (t.pool.tasks = [] → t.pool.available = maxConnections) ∧
      ((∀ id < t.pool.spawned, .finish id ∈ events) → t.pool.available = maxConnections) := by
  have howned := owned_run h
  refine ⟨⟨howned.distinct, howned.balanced.length_collect_le _⟩, ?_, ?_⟩
  · intro hnone
    simpa [hnone] using howned.balanced.permits
  · intro hall
    exact howned.balanced.available_of_ended fun id hid => ended_of_run h (hall id hid)

/-! ## Who is refused a tunnel -/

/-- The target has answered, and the client is refused. -/
def Refused (e : Event) : Prop :=
  ∃ id, e = .dial id .connected (.error maxConnectionsReached)

/-- When a target answers, fewer tasks than there are permits are alive, the connection that asked
for the tunnel among them. -/
def HasPermit (maxConnections : Nat) (s : Server) (e : Event) : Prop :=
  ∀ id answer, e = .dial id .connected answer → s.pool.tasks.length < maxConnections

section Refused

variable {maxConnections : Nat} {security : SecurityConfig} {s t : Server} {e : Event}

theorem ServerStep.hasPermit_iff (hstep : ServerStep security s e t)
    (h : Owned maxConnections s) : HasPermit maxConnections s e ↔ ¬ Refused e := by
  by_cases hdial : ∃ id answer, e = .dial id .connected answer
  · obtain ⟨id, answer, rfl⟩ := hdial
    have hlive : HasPermit maxConnections s (.dial id .connected answer) ↔
        0 < s.pool.available := by
      rw [h.balanced.available_pos_iff]
      exact ⟨fun hp => hp id answer rfl, fun hlt _ _ _ => hlt⟩
    rw [hlive]
    cases hstep with
    | dialFailed _ hanswer =>
        have hrefused := (afterDial_connected_eq_error _).1 hanswer
        refine iff_of_false (fun hfree => ?_) (fun hnot => hnot ⟨id, ?_⟩)
        · exact Nat.ne_of_gt hfree hrefused.1
        · rw [hrefused.2]
    | dialled _ hanswer =>
        refine iff_of_true (afterDial_eq_ok.1 hanswer).2 ?_
        rintro ⟨id', heq⟩
        cases heq
  -- no other step tries for the permit of a tunnel
  · refine iff_of_true (fun id answer heq => absurd ⟨id, answer, heq⟩ hdial) ?_
    rintro ⟨id, heq⟩
    exact hdial ⟨id, _, heq⟩

/-- No CONNECT is refused in a run exactly when every target that answers finds a permit free. -/
theorem connectAnswered_iff (security : SecurityConfig) (maxConnections : Nat)
    (events : List Event) (t : Server) :
    Run (Guarded (ServerStep security) (HasPermit maxConnections)) (.start maxConnections)
        events t ↔
      Run (ServerStep security) (.start maxConnections) events t ∧ ∀ e ∈ events, ¬ Refused e :=
  Run.guarded_iff_forall (fun _ _ _ hs hstep => hstep.owned hs)
    (fun _ _ _ hs hstep => hstep.hasPermit_iff hs) (.start maxConnections)

/-- With one permit in all, the connection itself holds it. -/
theorem ServerStep.refused_of_single (h : Owned 1 s) {id : Nat} {answer : Outcome Unit}
    (hstep : ServerStep security s (.dial id .connected answer) t) :
    Refused (.dial id .connected answer) := by
  by_contra hnot
  have hlive := (hstep.hasPermit_iff h).2 hnot id answer rfl
  have htask : ∃ task, task ∈ s.pool.tasks := by
    cases hstep with
    | dialFailed hmem =>
        exact ⟨_, hmem⟩
    | dialled hmem =>
        exact ⟨_, hmem⟩
  obtain ⟨task, hmem⟩ := htask
  exact Nat.not_lt.2 (List.length_pos_of_mem hmem) hlive

end Refused

/-! ## Runs of one client -/

/-- A request for a tunnel to `example.com:443`. -/
def tunnelRequest : Request :=
  { method := "CONNECT".toList
    uri :=
      { scheme := none
        authority := some "example.com:443".toList
        text := "example.com:443".toList }
    headers := [] }

theorem connectTarget_tunnelRequest :
    connectTarget Config.default.security tunnelRequest = .ok "example.com:443".toList := by
  decide +kernel

/-- A client opens a tunnel, and both tasks end. -/
def tunnelEvents : List Event :=
  [.accept, .connect 0 tunnelRequest, .dial 0 .connected (.ok ()), .upgrade 0, .finish 0, .finish 1]

def tunnelEnd : Server :=
  { pool := { available := 2, spawned := 2, tasks := [] }, accepted := 1 }

theorem run_tunnel :
    Run (ServerStep Config.default.security) (.start 2) tunnelEvents tunnelEnd := by
  refine .cons (.serve (by decide)) ?_
  refine .cons (.connect (show (0, Work.serving 0) ∈ _ by decide) connectTarget_tunnelRequest) ?_
  refine .cons
    (.dialled (show (0, Work.connecting 0 "example.com:443".toList) ∈ _ by decide) rfl) ?_
  refine .cons (.upgrade (show (0, Work.upgrading 0 1) ∈ _ by decide)) ?_
  refine .cons (.finish (show (0, Work.handedOver) ∈ _ by decide)) ?_
  exact .single (.finish (show (1, Work.tunnelling 0) ∈ _ by decide))

theorem connections_bounded_tunnel :
    Run (ServerStep Config.default.security) (.start 2) tunnelEvents tunnelEnd ∧
      tunnelEnd.openSockets.length ≤ 2 ∧ tunnelEnd.pool.available = 2 :=
  ⟨run_tunnel, (connections_bounded _ 2 run_tunnel).1.2,
    (connections_bounded _ 2 run_tunnel).2.2 (by decide)⟩

/-- The only permit is that of the connection. -/
theorem run_single :
    Run (ServerStep Config.default.security) (.start 1)
      [.accept, .connect 0 tunnelRequest, .dial 0 .connected (.error maxConnectionsReached)]
      { pool := { available := 0, spawned := 1, tasks := [(0, .serving 0)] }, accepted := 1 } := by
  refine .cons (.serve (by decide)) ?_
  refine .cons (.connect (show (0, Work.serving 0) ∈ _ by decide) connectTarget_tunnelRequest) ?_
  exact .single
    (.dialFailed (show (0, Work.connecting 0 "example.com:443".toList) ∈ _ by decide) rfl)

/-- With a limit of one the only client is refused its tunnel. -/
theorem not_connectAnswered_single :
    ¬ ∀ (security : SecurityConfig) (maxConnections : Nat) (events : List Event) (t : Server),
      1 ≤ maxConnections → Run (ServerStep security) (.start maxConnections) events t →
      ∀ e ∈ events, ¬ Refused e := by
  intro h
  exact h _ 1 _ _ (Nat.le_refl 1) run_single _ (by simp) ⟨0, rfl⟩

end Proxy
end Squiddish
