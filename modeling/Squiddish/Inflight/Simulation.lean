import Squiddish.Inflight.Handlers

/-!
# Simulation — a run of the handlers is a run of the system

One operation of a handler is a step of its client, or no step at all.  The registration of a
download, the subscription and the spawn are three operations, and the step of the system that
stands for all three is taken at the first of them; an error is taken from the headers in one
operation and the receiver dropped in another, and the step is taken at the second, when the error
is still there (`Tracked`).
-/

namespace Squiddish
namespace Inflight

open Lib Cache Proxy

variable {ι : Type} {E : Env ι} {w : World ι} {s s' : State ι} {c : ι}

/-! ## Threads outside -/

/-- The thread is not about to start a download. -/
def Thread.Idle (th : Thread) : Prop :=
  ∀ d, ¬ th.Starting d

theorem Thread.Idle.iff {th th' : Thread} (h : th.Idle) (h' : th'.Idle) (d : Nat) :
    th.Starting d ↔ th'.Starting d :=
  iff_of_false (h d) (h' d)

/-- The operations between the registration and the spawn, and the spawn. -/
def Starts : HandlerOp → Prop
  | .subscribe _ | .spawnDownload _ _ _ => True
  | _ => False

theorem idle_call {op : HandlerOp} {next : op.Answer → HandlerProg (Outcome ClientResponse)}
    (h : ¬ Starts op) : (Thread.running (.call op next)).Idle := by
  rintro d ⟨p, hp, hpending⟩
  cases hp
  rcases hpending with hop | ⟨key, req, hop⟩
  · cases hop
    exact h trivial
  · cases hop
    exact h trivial

theorem idle_ret (r : Outcome ClientResponse) : (Thread.running (.ret r)).Idle := by
  rintro d ⟨p, hp, hpending⟩
  cases hp
  simp [Prog.pending] at hpending

theorem idle_finish (r : Outcome ClientResponse) : (Thread.running (finish r)).Idle := by
  rcases r with (e | _) | response
  · exact idle_call id
  · exact idle_ret _
  · exact idle_ret _

theorem idle_of_ne_running {th : Thread} (h : ∀ p, th ≠ .running p) : th.Idle := by
  rintro d ⟨p, hp, -⟩
  exact h p hp

theorem Thread.Outside.idle {P : Outcome ClientResponse → Prop} {th : Thread}
    (h : th.Outside P) : th.Idle := by
  rintro d ⟨p, rfl, hpending⟩
  cases p with
  | ret r =>
      simp [Prog.pending] at hpending
  | call op next =>
      have hharmless : Harmless op := h.1.1
      rcases hpending with hop | ⟨key, req, hop⟩
      · cases hop
        exact hharmless
      · cases hop
        exact hharmless

theorem outside_finish_error (e : Failure) :
    Thread.Outside Page (.running (finish (.error e))) := by
  refine ⟨?_, onlyReturns_finish_error e⟩
  rcases e with e | _
  · exact ⟨trivial, fun _ => trivial⟩
  · trivial

theorem outside_ofOutcome {P : Outcome ClientResponse → Prop} {r : Outcome ClientResponse}
    (hP : Unstreamed r) (h : P r) : (Thread.ofOutcome r).Outside P := by
  rcases r with e | response | ⟨d, head, body⟩
  · trivial
  · exact h
  · exact absurd rfl (hP d head body)

/-- A request that does not reach the cache never comes to the downloads. -/
theorem outside_handle {sha256 : Bytes → Vector UInt8 32} {security : SecurityConfig}
    {req : Request} (h : ¬ Served security req) :
    Thread.Outside Unstreamed (.running (handle sha256 security req)) := by
  refine ⟨(onlyCalls_handle sha256 security req).mono ?_, onlyReturns_handle h⟩
  intro op hop
  cases op with
  | cacheGet key | joinOrStart key =>
      exact h ⟨hop.1, hop.2.1⟩
  | spawnDownload d key req' =>
      exact h ⟨hop.1, hop.2.1⟩
  | subscribe d | waitMeta d | dropMeta d =>
      exact h hop
  | _ =>
      trivial

theorem performs_harmless {op : HandlerOp} {sh sh' : Shared ι} {r : op.Answer}
    (hop : Harmless op) (h : Performs c op sh r sh') : sh' = sh := by
  cases op <;> first | exact h | exact hop.elim

/-! ## States that share -/

/-- The states agree in what the handlers share. -/
structure Agrees (s₀ s : State ι) : Prop where
  downloads : s.downloads = s₀.downloads
  states : s.states = s₀.states
  next : s.next = s₀.next
  cache : s.cache = s₀.cache
  written : s.written = s₀.written
  tasks : ∀ d t, s₀.tasks d = some t → s.tasks d = some t

namespace Agrees

variable {s₀ s : State ι}

theorem setTask (h : Agrees s₀ s) (d : Nat) (t : Task ι) :
    Agrees (s₀.setTask d t) (s.setTask d t) where
  downloads := h.downloads
  states := h.states
  next := h.next
  cache := h.cache
  written := h.written
  tasks := by
    intro d' t' ht'
    by_cases hd : d' = d
    · subst hd
      simpa using ht'
    · simpa [hd] using h.tasks d' t' (by simpa [hd] using ht')

theorem modifyState (h : Agrees s₀ s) (d : Nat) (f : DownloadState → DownloadState) :
    Agrees (s₀.modifyState d f) (s.modifyState d f) where
  downloads := h.downloads
  states := by simp [h.states]
  next := h.next
  cache := h.cache
  written := h.written
  tasks := h.tasks

theorem withDownload (h : Agrees s₀ s) (key : CacheKey) (f : DownloadState → DownloadState) :
    Agrees (s₀.withDownload key f) (s.withDownload key f) where
  downloads := h.downloads
  states := by simp [State.withDownload, h.downloads, h.states]
  next := h.next
  cache := h.cache
  written := h.written
  tasks := h.tasks

theorem completeDownload (h : Agrees s₀ s) (key : CacheKey) :
    Agrees (s₀.completeDownload key) (s.completeDownload key) where
  downloads := by simp [State.completeDownload, h.downloads]
  states := (h.withDownload key DownloadState.unregister).states
  next := h.next
  cache := h.cache
  written := h.written
  tasks := h.tasks

theorem store (h : Agrees s₀ s) (t : Task ι) (now : Nat) (hlen : t.cacheBuf.length < 2 ^ 63) :
    Agrees (s₀.store E t now hlen) (s.store E t now hlen) where
  downloads := h.downloads
  states := h.states
  next := h.next
  cache := by simp [State.store, h.cache]
  written := by simp [State.store, h.written]
  tasks := h.tasks

end Agrees

/-- A task moves; the others, the unspawned ones among them, stay. -/
theorem unspawned_setTask {tasks₀ tasks : Nat → Option (Task ι)} {d : Nat} {t t' : Task ι}
    (ht : tasks₀ d = some t) (d' : Nat) :
    (Function.update tasks₀ d (some t') d' = none ↔ tasks₀ d' = none) ∧
      (tasks₀ d' = none → Function.update tasks d (some t') d' = tasks d') := by
  by_cases hne : d' = d
  · subst hne
    simp [ht]
  · simp [hne]

theorem Represents.agrees (h : Represents E w s) : Agrees w.shared.toState s :=
  ⟨h.downloads, h.states, h.next, h.cache, h.written, h.tasks⟩

/-! ## Steps of one thread -/

/-- The channel of a download that has not been spawned is as it was created. -/
theorem Represents.subscribe_eq (h : Represents E w s) (htr : Tracked s) {d : Nat}
    (hstarting : (w.threads c).Starting d) :
    (w.shared.states d).sender.subscribe = DownloadState.new.sender.subscribe := by
  have htask := (h.starting c d hstarting).2
  have hcons := htr.delivering.consistent d _ htask
  have hlog : (s.states d).sender.log = [] := by
    rw [hcons.running (by simp [Task.new, TaskPhase.Running, TaskPhase.Live]),
      hcons.exact (Or.inl (Or.inl rfl))]
    rfl
  rw [← h.states, Broadcast.subscribe, hlog]
  rfl

theorem Matches.polled {states : Nat → DownloadState} {client : Client} {d : Nat} {head : Head} {m : ResponseMeta} (hd : client.download = some d)
    (hhead : buildStreamingResponse m = .ok head) (r : PollResult × StreamingBody) :
    Matches E c states (.polled d head client.received client.ending r)
      (client.polled m r) := by
  have hstreaming := @Matches.streaming _ E c states (client.polled m r) d head m r.2
    (by simp) (by simpa using hd) hhead
  rcases r with ⟨_ | bytes | text | _, body⟩ <;> exact hstreaming

/-! ## Before the first step -/

theorem threads_init (h : Served E.config.security (E.request c)) :
    (World.init E).threads c = .running (.call (.cacheGet (E.key c))
      (fun r => afterCacheGet (E.request c) (E.key c) r >>= finish)) :=
  congrArg Thread.running (handle_of_served h)

theorem Represents.init : Represents E (World.init E) .init := by
  have hnot : ∀ c d, ¬ ((World.init E).threads c).Starting d := by
    intro c d
    by_cases hserved : Served E.config.security (E.request c)
    · rw [threads_init hserved]
      exact idle_call id d
    · exact (outside_handle hserved).idle d
  refine ⟨rfl, rfl, rfl, rfl, rfl, ?_, ?_, ?_, ?_⟩
  · intro d t ht
    exact ht
  · intro d t ht
    simp [State.init] at ht
  · intro c d hc
    exact absurd hc (hnot c d)
  · intro c
    by_cases hserved : Served E.config.security (E.request c)
    · rw [threads_init hserved]
      exact .lookup rfl
    · exact .never hserved rfl (outside_handle hserved)

section System

variable [DecidableEq ι]

/-- A thread moves, and with it its client, but no task and no registration. -/
theorem Represents.setThread (h : Represents E w s) {sh' : Shared ι} {th' : Thread}
    (hdownloads : s'.downloads = sh'.downloads) (hstates : s'.states = sh'.states)
    (hnext : s'.next = sh'.next) (hcache : s'.cache = sh'.cache)
    (hwritten : s'.written = sh'.written) (htasks : s'.tasks = s.tasks)
    (htasks' : sh'.tasks = w.shared.tasks)
    (hstarting : ∀ d, th'.Starting d ↔ (w.threads c).Starting d)
    (hothers : ∀ c', c' ≠ c → s'.clients c' = s.clients c')
    (hkeep : ∀ c', c' ≠ c →
      Matches E c' s'.states (w.threads c') (s.clients c'))
    (hown : Matches E c s'.states th' (s'.clients c)) :
    Represents E ({ w with shared := sh' }.setThread c th') s' := by
  have hiff : ∀ c' d, ((({ w with shared := sh' } : World ι).setThread c th').threads c').Starting d
      ↔ (w.threads c').Starting d := by
    intro c' d
    by_cases hc : c' = c
    · subst hc
      simpa using hstarting d
    · simp [hc]
  refine ⟨hdownloads, hstates, hnext, hcache, hwritten, ?_, ?_, ?_, ?_⟩
  · intro d t ht
    rw [htasks]
    exact h.tasks d t (htasks' ▸ ht)
  · intro d t ht hnone
    rcases h.unspawned d t (htasks ▸ ht) (htasks' ▸ hnone) with ⟨c', hc', hnew⟩
    exact ⟨c', (hiff c' d).2 hc', hnew⟩
  · intro c' d hc'
    rcases h.starting c' d ((hiff c' d).1 hc') with ⟨hnone, hnew⟩
    exact ⟨htasks' ▸ hnone, htasks ▸ hnew⟩
  · intro c'
    by_cases hc : c' = c
    · subst hc
      simpa using hown
    · rw [hothers c' hc]
      simpa [hc] using hkeep c' hc

/-- A thread moves, and its client does not. -/
theorem Represents.stutter (h : Represents E w s) {th' : Thread}
    (hstarting : ∀ d, th'.Starting d ↔ (w.threads c).Starting d)
    (hown : Matches E c s.states th' (s.clients c)) :
    Represents E (w.setThread c th') s :=
  h.setThread h.downloads h.states h.next h.cache h.written rfl rfl hstarting
    (fun _ _ => rfl) (fun c' _ => h.threads c') hown

/-- From `s` the system comes to where the handlers are. -/
def Reaches (E : Env ι) (s : State ι) (w : World ι) : Prop :=
  ∃ bs s', Run (Step E) s bs s' ∧ Represents E w s' ∧ Tracked s'

theorem Represents.reaches_stutter (h : Represents E w s) (htr : Tracked s) {th' : Thread}
    (hstarting : ∀ d, th'.Starting d ↔ (w.threads c).Starting d)
    (hown : Matches E c s.states th' (s.clients c)) :
    Reaches E s (w.setThread c th') :=
  ⟨[], s, .nil s, h.stutter hstarting hown, htr⟩

/-- The client takes a step that changes its phase only. -/
theorem Represents.reaches_setPhase (h : Represents E w s) (htr : Tracked s) {a : Action ι}
    {phase : ClientPhase} {th' : Thread} (hstep : Step E s a (s.setPhase c phase))
    (hstarting : ∀ d, th'.Starting d ↔ (w.threads c).Starting d)
    (hown : Matches E c s.states th' { s.clients c with phase := phase }) :
    Reaches E s (w.setThread c th') := by
  refine ⟨[a], _, .single hstep, ?_, htr.step hstep⟩
  refine h.setThread h.downloads h.states h.next h.cache h.written rfl rfl hstarting ?_ ?_ ?_
  · intro c' hc
    simp [State.setPhase, hc]
  · intro c' _
    exact h.threads c'
  · simpa [State.setPhase] using hown

/-- The client drops its receiver for the headers. -/
theorem Represents.reaches_dropMeta (h : Represents E w s) (htr : Tracked s) {a : Action ι}
    {d : Nat} {phase : ClientPhase} {th' : Thread}
    (hstep : Step E s a ((s.modifyState d DownloadState.dropMeta).setPhase c phase))
    (hstarting : ∀ d, th'.Starting d ↔ (w.threads c).Starting d)
    (hown : Matches E c (s.modifyState d DownloadState.dropMeta).states th'
      { s.clients c with phase := phase }) :
    Reaches E s
      ({ w with shared := w.shared.modifyState d DownloadState.dropMeta }.setThread c th') := by
  refine ⟨[a], _, .single hstep, ?_, htr.step hstep⟩
  refine h.setThread h.downloads ?_ h.next h.cache h.written rfl rfl hstarting ?_ ?_ ?_
  · simp [State.setPhase, Shared.modifyState, h.states]
  · intro c' hc
    simp [State.setPhase, hc]
  · intro c' _
    exact htr.keeps hstep (h.threads c')
  · simpa [State.setPhase] using hown

/-! ## The operations of a handler -/

theorem Represents.reaches_lookup (h : Represents E w s) (htr : Tracked s)
    (hthread : w.threads c = .running (.call (.cacheGet (E.key c))
      (fun r => afterCacheGet (E.request c) (E.key c) r >>= finish)))
    (hphase : (s.clients c).phase = .arrived) {r : Outcome (Option CacheEntry)}
    (hr : r = .ok (w.shared.cache (E.key c)) ∨ ∃ e, r = .error e) :
    Reaches E s (w.setThread c
      (.running (afterCacheGet (E.request c) (E.key c) r >>= finish))) := by
  have hold : (w.threads c).Idle := by
    rw [hthread]
    exact idle_call id
  rcases hr with rfl | ⟨e, rfl⟩
  · cases hcache : w.shared.cache (E.key c) with
    | none =>
        exact h.reaches_setPhase htr (.lookupMiss hphase (h.cache ▸ hcache))
          ((idle_call id).iff hold) (.missed rfl)
    | some entry =>
        exact h.reaches_setPhase htr (.lookupHit hphase (h.cache ▸ hcache))
          ((idle_call id).iff hold) (.hit rfl)
  · have hout : Thread.Outside Page (.running (finish (.error e))) := outside_finish_error e
    cases e with
    | error e =>
        exact h.reaches_setPhase htr (.lookupFailed e hphase) (hout.idle.iff hold)
          (.settled trivial hout)
    -- a panic closes the connection
    | panic =>
        exact h.reaches_setPhase htr (.disconnect (by simp [hphase]) (by simp [hphase]))
          (hout.idle.iff hold) (.settled trivial hout)

/-- The client gets a receiver and the chunks so far. -/
theorem Represents.reaches_joined (h : Represents E w s) (htr : Tracked s) {d : Nat}
    (hthread : w.threads c = .running (.call (.joinOrStart (E.key c))
      (fun action => afterJoin (E.request c) (E.key c) action >>= finish)))
    (hphase : (s.clients c).phase = .missed)
    (hd : w.shared.downloads (E.key c).hashHex = some d) :
    Reaches E s
      ({ w with shared := w.shared.modifyState d DownloadState.subscribeMeta }.setThread c
        (.running (afterJoin (E.request c) (E.key c)
          (.joined d (w.shared.states d).sender.subscribe (w.shared.states d).accumulated) >>=
            finish))) := by
  have hstep : Step E s (.joinOrStart c) (s.joinOrStartDownload E c) := .joinOrStart hphase
  have hafter : s.joinOrStartDownload E c =
      (s.modifyState d DownloadState.subscribeMeta).setClient c
        { s.clients c with
          phase := .waiting (s.states d).sender.subscribe (s.states d).accumulated
          download := some d } := by
    simp only [State.joinOrStartDownload, h.downloads, hd]
  refine ⟨[_], _, .single hstep, ?_, htr.step hstep⟩
  rw [hafter] at hstep ⊢
  rw [← h.states]
  refine h.setThread h.downloads ?_ h.next h.cache h.written rfl rfl ?_ ?_ ?_ ?_
  · simp [Shared.modifyState, h.states]
  · rw [hthread]
    exact (idle_call id).iff (idle_call id)
  · intro c' hc
    simp [hc]
  · intro c' _
    exact htr.keeps hstep (h.threads c')
  · rw [State.clients_setClient, Function.update_self]
    exact .wait rfl rfl

/-- The handler of who starts a download, up to the spawn, and then the spawn itself. -/
theorem starting_iff {next : Receiver → HandlerProg (Outcome ClientResponse)} {d d' : Nat} :
    (Thread.running (.call (.subscribe d) next)).Starting d' ↔ d' = d := by
  constructor
  · rintro ⟨p, hp, hpending⟩
    cases hp
    rcases hpending with hop | ⟨key, req, hop⟩
    · cases hop
      rfl
    · cases hop
  · rintro rfl
    exact ⟨_, rfl, Or.inl rfl⟩

theorem starting_spawn_iff {key : CacheKey} {req : Request}
    {next : Unit → HandlerProg (Outcome ClientResponse)} {d d' : Nat} :
    (Thread.running (.call (.spawnDownload d key req) next)).Starting d' ↔ d' = d := by
  constructor
  · rintro ⟨p, hp, hpending⟩
    cases hp
    rcases hpending with hop | ⟨key', req', hop⟩
    · cases hop
    · cases hop
      rfl
  · rintro rfl
    exact ⟨_, rfl, Or.inr ⟨key, req, rfl⟩⟩

/-- The registration of a download, with which the system spawns its task too. -/
theorem Represents.reaches_started (h : Represents E w s) (htr : Tracked s)
    (hthread : w.threads c = .running (.call (.joinOrStart (E.key c))
      (fun action => afterJoin (E.request c) (E.key c) action >>= finish)))
    (hphase : (s.clients c).phase = .missed)
    (hd : w.shared.downloads (E.key c).hashHex = none) :
    Reaches E s
      ({ w with shared := w.shared.register (E.key c) }.setThread c
        (.running (afterJoin (E.request c) (E.key c) (.started w.shared.next) >>= finish))) := by
  have hstep : Step E s (.joinOrStart c) (s.joinOrStartDownload E c) := .joinOrStart hphase
  have hfresh : s.tasks s.next = none :=
    htr.delivering.registered.fresh _ (Nat.le_refl _)
  have hnone : s.downloads (E.key c).hashHex = none := h.downloads ▸ hd
  have hold : (w.threads c).Idle := by
    rw [hthread]
    exact idle_call id
  have hkeep : ∀ c', Matches E c' (s.joinOrStartDownload E c).states
      (w.threads c') (s.clients c') :=
    fun c' => htr.keeps hstep (h.threads c')
  refine ⟨[_], _, .single hstep, ?_, htr.step hstep⟩
  simp only [State.joinOrStartDownload, hnone] at hkeep ⊢
  constructor
  · simp [Shared.register, h.downloads, h.next]
  · simp [Shared.register, h.states, h.next]
  · simp [Shared.register, h.next]
  · exact h.cache
  · exact h.written
  case tasks =>
    intro d t ht
    have hold' := h.tasks d t ht
    have hne : d ≠ s.next := by
      rintro rfl
      simp [hfresh] at hold'
    simpa [hne] using hold'
  case unspawned =>
    intro d t ht hunspawned
    by_cases hne : d = s.next
    · subst hne
      refine ⟨c, ?_, by simpa using ht.symm⟩
      rw [World.threads_setThread, Function.update_self, h.next]
      exact starting_iff.2 rfl
    · rcases h.unspawned d t (by simpa [hne] using ht) hunspawned with ⟨c', hc', hnew⟩
      have hother : c' ≠ c := by
        rintro rfl
        exact hold d hc'
      exact ⟨c', by simpa [hother] using hc', hnew⟩
  case starting =>
    intro c' d hc'
    by_cases hc : c' = c
    · subst hc
      rw [World.threads_setThread, Function.update_self] at hc'
      have heq : d = s.next := (starting_iff.1 hc').trans h.next.symm
      subst heq
      refine ⟨?_, by simp⟩
      cases htask : w.shared.tasks s.next with
      | none =>
          exact htask
      | some t =>
          simp [h.tasks _ _ htask] at hfresh
    · rcases h.starting c' d (by simpa [hc] using hc') with ⟨hunspawned, hnew⟩
      have hne : d ≠ s.next := by
        rintro rfl
        simp [hfresh] at hnew
      exact ⟨hunspawned, by simpa [hne] using hnew⟩
  case threads =>
    intro c'
    by_cases hc : c' = c
    · subst hc
      rw [World.threads_setThread, Function.update_self, ← h.next]
      exact .subscribe (by simp) (by simp)
    · simpa [hc] using hkeep c'

theorem Represents.reaches_subscribe (h : Represents E w s) (htr : Tracked s) {d : Nat}
    (hthread : w.threads c = .running (.call (.subscribe d) (fun receiver =>
      .call (.spawnDownload d (E.key c) (E.request c)) (fun _ =>
        awaitMeta startClosed d receiver [] >>= finish))))
    (hphase : (s.clients c).phase = .waiting DownloadState.new.sender.subscribe [])
    (hd : (s.clients c).download = some d) :
    Reaches E s (w.setThread c
      (.running (.call (.spawnDownload d (E.key c) (E.request c)) (fun _ =>
        awaitMeta startClosed d (w.shared.states d).sender.subscribe [] >>= finish)))) := by
  have hstarting : (w.threads c).Starting d := by
    rw [hthread]
    exact starting_iff.2 rfl
  refine h.reaches_stutter htr ?_ ?_
  · intro d'
    rw [hthread, starting_iff, starting_spawn_iff]
  · rw [h.subscribe_eq htr hstarting]
    exact .spawn hphase hd

/-- The system has spawned the task already. -/
theorem Represents.reaches_spawn (h : Represents E w s) (htr : Tracked s) {d : Nat}
    (hthread : w.threads c = .running (.call (.spawnDownload d (E.key c) (E.request c)) (fun _ =>
      awaitMeta startClosed d DownloadState.new.sender.subscribe [] >>= finish)))
    (hphase : (s.clients c).phase = .waiting DownloadState.new.sender.subscribe [])
    (hd : (s.clients c).download = some d) :
    Reaches E s
      ({ w with shared := w.shared.spawn d (Task.new (E.key c) c (E.request c)) }.setThread c
        (.running (awaitMeta startClosed d DownloadState.new.sender.subscribe [] >>=
          finish))) := by
  have hold : ∀ d', (w.threads c).Starting d' ↔ d' = d := by
    intro d'
    rw [hthread, starting_spawn_iff]
  have hnew := (h.starting c d ((hold d).2 rfl)).2
  have hidle : (Thread.running
      (awaitMeta startClosed d DownloadState.new.sender.subscribe [] >>= finish)).Idle :=
    idle_call id
  refine ⟨[], s, .nil s, ?_, htr⟩
  refine ⟨h.downloads, h.states, h.next, h.cache, h.written, ?_, ?_, ?_, ?_⟩
  · intro d' t ht
    by_cases hne : d' = d
    · subst hne
      rw [hnew]
      simpa [Shared.spawn] using ht
    · exact h.tasks d' t (by simpa [Shared.spawn, hne] using ht)
  · intro d' t ht hunspawned
    have hne : d' ≠ d := by
      rintro rfl
      simp [Shared.spawn] at hunspawned
    rcases h.unspawned d' t ht (by simpa [Shared.spawn, hne] using hunspawned)
      with ⟨c', hc', hnew'⟩
    have hother : c' ≠ c := by
      rintro rfl
      exact hne ((hold d').1 hc')
    exact ⟨c', by simpa [hother] using hc', hnew'⟩
  · intro c' d' hc'
    have hother : c' ≠ c := by
      rintro rfl
      exact hidle d' (by simpa using hc')
    rcases h.starting c' d' (by simpa [hother] using hc') with
      ⟨hunspawned, hnew'⟩
    -- the task of a download knows who started it
    have hne : d' ≠ d := by
      rintro rfl
      have hsame := hnew'.symm.trans hnew
      simp only [Task.new, Option.some.injEq, Task.mk.injEq] at hsame
      exact hother hsame.2.1
    exact ⟨by simpa [Shared.spawn, hne] using hunspawned, hnew'⟩
  · intro c'
    by_cases hc : c' = c
    · subst hc
      rw [World.threads_setThread, Function.update_self]
      exact .wait hphase hd
    · simpa [hc] using h.threads c'

/-! ### The headers -/

theorem Represents.reaches_waitMeta (h : Represents E w s) (htr : Tracked s) {closed : Str}
    {d : Nat} {rx : Receiver} {initial : List Bytes}
    (hthread : w.threads c = .running (.call (.waitMeta d) (fun r =>
      .call (.dropMeta d) (fun _ => finish (streamMeta closed d rx initial r)))))
    (hphase : (s.clients c).phase = .waiting rx initial) (hd : (s.clients c).download = some d)
    {r : Option ResponseMetaResult} {sh' : Shared ι}
    (hop : Performs c (.waitMeta d) w.shared r sh') :
    Reaches E s ({ w with shared := sh' }.setThread c
      (.running (.call (.dropMeta d) (fun _ => finish (streamMeta closed d rx initial r))))) := by
  rcases hop with ⟨rfl, hr⟩
  have hstarting : ∀ d', (Thread.running
      (.call (.dropMeta d) (fun _ => finish (streamMeta closed d rx initial r)))).Starting d' ↔
        (w.threads c).Starting d' := by
    rw [hthread]
    exact (idle_call id).iff (idle_call id)
  rcases r with _ | text | m
  · have hclosed := Watch.waitFor_eq_closed hr
    rw [← h.states] at hclosed
    exact h.reaches_stutter htr hstarting (.abandoned hphase hd (by simpa using hclosed.1) hclosed.2)
  · have hvalue := (Watch.waitFor_eq_ready hr).1
    rw [← h.states] at hvalue
    exact h.reaches_stutter htr hstarting (.failed hphase hd hvalue)
  · exact h.reaches_setPhase htr (.awaitMeta hphase hd (h.states ▸ hr)) hstarting
      (.headers rfl hd)

/-- The drop of the receiver is the step of the system, whether the headers have come or not. -/
theorem Represents.reaches_drop (h : Represents E w s) (htr : Tracked s) {closed : Str}
    {d : Nat} {rx : Receiver} {initial : List Bytes} {r : Option ResponseMetaResult}
    {a : Action ι} {phase : ClientPhase}
    (hthread : w.threads c = .running
      (.call (.dropMeta d) (fun _ => finish (streamMeta closed d rx initial r))))
    (hstep : Step E s a ((s.modifyState d DownloadState.dropMeta).setPhase c phase))
    (hown : Matches E c (s.modifyState d DownloadState.dropMeta).states
      (.running (finish (streamMeta closed d rx initial r))) { s.clients c with phase := phase })
    {sh' : Shared ι} (hop : Performs c (.dropMeta d) w.shared () sh') :
    Reaches E s ({ w with shared := sh' }.setThread c
      (.running (finish (streamMeta closed d rx initial r)))) := by
  cases hop
  refine h.reaches_dropMeta htr hstep ?_ hown
  rw [hthread]
  exact (idle_finish _).iff (idle_call id)

theorem Represents.reaches_headers (h : Represents E w s) (htr : Tracked s) {closed : Str}
    {d : Nat} {rx : Receiver} {initial : List Bytes} {m : ResponseMeta}
    (hthread : w.threads c = .running
      (.call (.dropMeta d) (fun _ => finish (streamMeta closed d rx initial (some (.ok m))))))
    (hphase : (s.clients c).phase = .answered rx initial m)
    (hd : (s.clients c).download = some d) {sh' : Shared ι}
    (hop : Performs c (.dropMeta d) w.shared () sh') :
    Reaches E s ({ w with shared := sh' }.setThread c
      (.running (finish (streamMeta closed d rx initial (some (.ok m)))))) := by
  cases hhead : buildStreamingResponse m with
  | ok head =>
      have hfollows : (s.clients c).received = [] ∧ (s.clients c).ending = none := by
        have hboth := (htr.delivering.follows c d hd).2
        simp only [hphase] at hboth
        exact ⟨hboth.1, hboth.2.1⟩
      have hmeta : streamMeta closed d rx initial (some (.ok m)) =
          .ok (.streaming d head (.new rx initial)) := by
        rw [streamMeta, hhead]
        rfl
      refine h.reaches_drop htr hthread (.build hphase hd) ?_ hop
      rw [hmeta]
      exact .reply rfl hd hfollows.1 hfollows.2 hhead
  -- headers that cannot be sent on make the handler fail, and the download goes on without it
  | error e =>
      have hmeta : streamMeta closed d rx initial (some (.ok m)) = .error e := by
        rw [streamMeta, hhead]
        rfl
      refine h.reaches_drop htr hthread (.disconnectAnswered hphase hd) ?_ hop
      rw [hmeta]
      exact .settled trivial (outside_finish_error e)

theorem Represents.reaches_failed (h : Represents E w s) (htr : Tracked s) {closed text : Str}
    {d : Nat} {rx : Receiver} {initial : List Bytes}
    (hthread : w.threads c = .running
      (.call (.dropMeta d) (fun _ => finish (streamMeta closed d rx initial (some (.error text))))))
    (hphase : (s.clients c).phase = .waiting rx initial) (hd : (s.clients c).download = some d)
    (hvalue : (s.states d).metaTx.value = some (.error text)) {sh' : Shared ι}
    (hop : Performs c (.dropMeta d) w.shared () sh') :
    Reaches E s ({ w with shared := sh' }.setThread c
      (.running (finish (streamMeta closed d rx initial (some (.error text)))))) := by
  have hwait : (s.states d).metaTx.waitFor Option.isSome = .ready (some (.error text)) := by
    simp [Watch.waitFor, hvalue]
  exact h.reaches_drop htr hthread (.awaitError hphase hd hwait)
    (.settled trivial (outside_finish_error _)) hop

theorem Represents.reaches_abandoned (h : Represents E w s) (htr : Tracked s) {closed : Str}
    {d : Nat} {rx : Receiver} {initial : List Bytes}
    (hthread : w.threads c = .running
      (.call (.dropMeta d) (fun _ => finish (streamMeta closed d rx initial none))))
    (hphase : (s.clients c).phase = .waiting rx initial) (hd : (s.clients c).download = some d)
    (hvalue : (s.states d).metaTx.value = none) (hgone : (s.states d).metaTx.senderAlive = false)
    {sh' : Shared ι} (hop : Performs c (.dropMeta d) w.shared () sh') :
    Reaches E s ({ w with shared := sh' }.setThread c
      (.running (finish (streamMeta closed d rx initial none)))) := by
  rcases htr.delivering.registered.attached c d hd with ⟨t, ht⟩
  exact h.reaches_drop htr hthread
    (.awaitClosed hphase hd ht (by simp [Watch.waitFor, hvalue, hgone]))
    (.settled trivial (outside_finish_error _)) hop

/-! ### Any operation -/

/-- A handler performs its next operation. -/
theorem Represents.reaches_call (h : Represents E w s) (htr : Tracked s) {op : HandlerOp}
    {next : op.Answer → HandlerProg (Outcome ClientResponse)} {r : op.Answer} {sh' : Shared ι}
    (hthread : w.threads c = .running (.call op next)) (hop : Performs c op w.shared r sh') :
    Reaches E s ({ w with shared := sh' }.setThread c (.running (next r))) := by
  have hmatch := h.threads c
  rw [hthread] at hmatch
  have houtside : ∀ P, Thread.Outside P (.running (.call op next)) →
      sh' = w.shared ∧ Thread.Outside P (.running (next r)) ∧
        ∀ d, (Thread.running (next r)).Starting d ↔ (w.threads c).Starting d := by
    intro P hout
    have hnext : Thread.Outside P (.running (next r)) := ⟨hout.1.2 r, hout.2 r⟩
    refine ⟨performs_harmless hout.1.1 hop, hnext, ?_⟩
    rw [hthread]
    exact hnext.idle.iff hout.idle
  cases hmatch with
  | never hserved hphase hout =>
      rcases houtside _ hout with ⟨rfl, hnext, hstarting⟩
      exact h.reaches_stutter htr hstarting (.never hserved hphase hnext)
  | settled hphase hout =>
      rcases houtside _ hout with ⟨rfl, hnext, hstarting⟩
      exact h.reaches_stutter htr hstarting (.settled hphase hnext)
  | lookup hphase =>
      rcases hop with ⟨rfl, hr⟩
      exact h.reaches_lookup htr hthread hphase hr
  | hit hphase =>
      cases hop
      refine h.reaches_stutter htr ?_ (.hitReply hphase)
      rw [hthread]
      exact (idle_ret _).iff (idle_call id)
  | missed hphase =>
      cases hd : w.shared.downloads (E.key c).hashHex with
      | some d =>
          simp only [Performs, hd] at hop
          rcases hop with ⟨rfl, rfl⟩
          exact h.reaches_joined htr hthread hphase hd
      | none =>
          simp only [Performs, hd] at hop
          rcases hop with ⟨rfl, rfl⟩
          exact h.reaches_started htr hthread hphase hd
  | subscribe hphase hd =>
      rcases hop with ⟨rfl, rfl⟩
      exact h.reaches_subscribe htr hthread hphase hd
  | spawn hphase hd =>
      cases hop
      exact h.reaches_spawn htr hthread hphase hd
  | wait hphase hd =>
      exact h.reaches_waitMeta htr hthread hphase hd hop
  | headers hphase hd =>
      exact h.reaches_headers htr hthread hphase hd hop
  | failed hphase hd hvalue =>
      exact h.reaches_failed htr hthread hphase hd hvalue hop
  | abandoned hphase hd hvalue hgone =>
      exact h.reaches_abandoned htr hthread hphase hd hvalue hgone hop

/-! ## Behind the handler -/

theorem idle_ofOutcome (r : Outcome ClientResponse) : (Thread.ofOutcome r).Idle := by
  refine idle_of_ne_running ?_
  rcases r with e | response | ⟨d, head, body⟩ <;> simp [Thread.ofOutcome]

theorem idle_polled (d : Nat) (head : Head) (received : List Bytes)
    (ending : Option (Except Str Unit)) (r : PollResult × StreamingBody) :
    (Thread.polled d head received ending r).Idle := by
  refine idle_of_ne_running ?_
  rcases r with ⟨_ | bytes | text | _, body⟩ <;> simp [Thread.polled]

theorem idle_streaming (d : Nat) (head : Head) (body : StreamingBody) (received : List Bytes)
    (ending : Option (Except Str Unit)) :
    (Thread.streaming d head body received ending).Idle :=
  idle_of_ne_running (by simp)

theorem idle_closed : Thread.closed.Idle :=
  idle_of_ne_running (by simp)

theorem Represents.reaches_reply (h : Represents E w s) (htr : Tracked s)
    {r : Outcome ClientResponse} (hthread : w.threads c = .running (.ret r)) :
    Reaches E s (w.setThread c (.ofOutcome r)) := by
  have hmatch := h.threads c
  rw [hthread] at hmatch
  have hstarting : ∀ d, (Thread.ofOutcome r).Starting d ↔ (w.threads c).Starting d := by
    rw [hthread]
    exact (idle_ofOutcome r).iff (idle_ret r)
  cases hmatch with
  | never hserved hphase hout =>
      exact h.reaches_stutter htr hstarting (.never hserved hphase (outside_ofOutcome hout.2 hout.2))
  | settled hphase hout =>
      exact h.reaches_stutter htr hstarting (.settled hphase (outside_ofOutcome (Page.unstreamed hout.2) hout.2))
  | hitReply hphase =>
      exact h.reaches_stutter htr hstarting (.answered hphase)
  | reply hphase hd hreceived hending hhead =>
      refine h.reaches_stutter htr hstarting ?_
      have hstreaming := @Matches.streaming _ E c s.states _ _ _ _ _
        hphase hd hhead
      rwa [hreceived, hending] at hstreaming

theorem Represents.reaches_poll (h : Represents E w s) (htr : Tracked s) {d : Nat} {head : Head}
    {body : StreamingBody} {received : List Bytes} {ending : Option (Except Str Unit)}
    (hthread : w.threads c = .streaming d head body received ending) :
    Reaches E s (w.setThread c
      (.polled d head received ending (body.pollFrame (w.shared.states d).sender))) := by
  have hmatch := h.threads c
  rw [hthread] at hmatch
  cases hmatch with
  | never _ _ hout | settled _ hout =>
      exact hout.elim
  | streaming hphase hd hhead =>
      have hstep := @Step.poll ι _ E s c _ _ _ hphase hd
      refine ⟨[_], _, .single hstep, ?_, htr.step hstep⟩
      rw [← h.states]
      refine h.setThread h.downloads h.states h.next h.cache h.written rfl rfl ?_ ?_ ?_ ?_
      · rw [hthread]
        exact (idle_polled _ _ _ _ _).iff (idle_streaming _ _ _ _ _)
      · intro c' hc
        simp [hc]
      · intro c' _
        exact h.threads c'
      · rw [State.clients_setClient, Function.update_self]
        exact .polled hd hhead _

theorem Represents.reaches_closeWaiting (h : Represents E w s) (htr : Tracked s) {d : Nat}
    {next : Option ResponseMetaResult → HandlerProg (Outcome ClientResponse)}
    (hthread : w.threads c = .running (.call (.waitMeta d) next)) :
    Reaches E s ({ w with shared := w.shared.modifyState d DownloadState.dropMeta }.setThread c
      .closed) := by
  have hmatch := h.threads c
  rw [hthread] at hmatch
  have hstarting : ∀ d', Thread.closed.Starting d' ↔ (w.threads c).Starting d' := by
    rw [hthread]
    exact idle_closed.iff (idle_call id)
  cases hmatch with
  | never _ _ hout | settled _ hout =>
      exact hout.1.1.elim
  | wait hphase hd =>
      exact h.reaches_dropMeta htr (.disconnectWaiting hphase hd) hstarting (.settled trivial trivial)

theorem Represents.reaches_closeSuspended (h : Represents E w s) (htr : Tracked s)
    {op : HandlerOp} {next : op.Answer → HandlerProg (Outcome ClientResponse)}
    (hthread : w.threads c = .running (.call op next)) (hop : Suspends op) :
    Reaches E s (w.setThread c .closed) := by
  have hmatch := h.threads c
  rw [hthread] at hmatch
  have hstarting : ∀ d, Thread.closed.Starting d ↔ (w.threads c).Starting d := by
    rw [hthread]
    refine idle_closed.iff (idle_call ?_)
    cases op <;> first | exact id | exact hop.elim
  cases hmatch with
  | never hserved hphase _ =>
      exact h.reaches_stutter htr hstarting (.never hserved hphase trivial)
  | settled hphase _ =>
      exact h.reaches_stutter htr hstarting (.settled hphase trivial)
  | lookup hphase =>
      exact h.reaches_setPhase htr (.disconnect (by simp [hphase]) (by simp [hphase])) hstarting
        (.settled trivial trivial)
  | hit _ | missed _ | subscribe _ _ | spawn _ _ | wait _ _ | headers _ _ | failed _ _ _
  | abandoned _ _ _ _ =>
      exact hop.elim

theorem Represents.reaches_closeStreaming (h : Represents E w s) (htr : Tracked s) {d : Nat}
    {head : Head} {body : StreamingBody} {received : List Bytes}
    {ending : Option (Except Str Unit)}
    (hthread : w.threads c = .streaming d head body received ending) :
    Reaches E s (w.setThread c .closed) := by
  have hmatch := h.threads c
  rw [hthread] at hmatch
  have hstarting : ∀ d', Thread.closed.Starting d' ↔ (w.threads c).Starting d' := by
    rw [hthread]
    exact idle_closed.iff (idle_streaming _ _ _ _ _)
  cases hmatch with
  | never _ _ hout | settled _ hout =>
      exact hout.elim
  | streaming hphase _ _ =>
      exact h.reaches_setPhase htr (.disconnect (by simp [hphase]) (by simp [hphase])) hstarting
        (.settled trivial trivial)

/-! ## Tasks and the cache -/

/-- A task that has been spawned, or the cache, moves in both states alike. -/
theorem Agrees.step {s₀ s₀' s : State ι} {a : Action ι} (h : Agrees s₀ s)
    (hclient : ¬ a.OfClient) (hstep : Step E s₀ a s₀') :
    ∃ s', Step E s a s' ∧ Agrees s₀' s' ∧ s'.clients = s.clients ∧
      ∀ d, (s₀'.tasks d = none ↔ s₀.tasks d = none) ∧
        (s₀.tasks d = none → s'.tasks d = s.tasks d) := by
  cases hstep with
  | lookupHit _ _ | lookupMiss _ _ | lookupFailed _ _ | joinOrStart _ | awaitMeta _ _ _
  | awaitError _ _ _ | awaitClosed _ _ _ _ | build _ _ | poll _ _ | disconnectWaiting _ _
  | disconnectAnswered _ _ | disconnect _ _ =>
      exact absurd trivial hclient
  | fetch ht hphase =>
      exact ⟨_, .fetch (h.tasks _ _ ht) hphase, h.setTask _ _, rfl, unspawned_setTask ht⟩
  | respond ht hphase =>
      exact ⟨_, .respond (h.tasks _ _ ht) hphase, (h.withDownload _ _).setTask _ _, rfl,
        unspawned_setTask ht⟩
  | chunk ht hphase hresp hsize =>
      exact ⟨_, .chunk (h.tasks _ _ ht) hphase hresp hsize, (h.withDownload _ _).setTask _ _, rfl,
        unspawned_setTask ht⟩
  | oversized ht hphase hsize =>
      exact ⟨_, .oversized (h.tasks _ _ ht) hphase hsize, h.setTask _ _, rfl,
        unspawned_setTask ht⟩
  | bodyEnd ht hphase =>
      exact ⟨_, .bodyEnd (h.tasks _ _ ht) hphase, h.setTask _ _, rfl, unspawned_setTask ht⟩
  | store hlen ht hphase =>
      exact ⟨_, .store hlen (h.tasks _ _ ht) hphase, (h.store _ _ hlen).setTask _ _, rfl,
        unspawned_setTask ht⟩
  | storeFailed ht hphase =>
      exact ⟨_, .storeFailed (h.tasks _ _ ht) hphase, h.setTask _ _, rfl, unspawned_setTask ht⟩
  | fail ht hphase =>
      exact ⟨_, .fail (h.tasks _ _ ht) hphase, h.setTask _ _, rfl, unspawned_setTask ht⟩
  | publishError ht hphase hfailure =>
      exact ⟨_, .publishError (h.tasks _ _ ht) hphase hfailure, (h.withDownload _ _).setTask _ _,
        rfl, unspawned_setTask ht⟩
  | sendError ht hphase hfailure =>
      exact ⟨_, .sendError (h.tasks _ _ ht) hphase hfailure, (h.modifyState _ _).setTask _ _, rfl,
        unspawned_setTask ht⟩
  | sendComplete ht hphase =>
      exact ⟨_, .sendComplete (h.tasks _ _ ht) hphase, (h.modifyState _ _).setTask _ _, rfl,
        unspawned_setTask ht⟩
  | panic ht hphase =>
      exact ⟨_, .panic (h.tasks _ _ ht) hphase, h.setTask _ _, rfl, unspawned_setTask ht⟩
  | completeDownload ht hphase =>
      exact ⟨_, .completeDownload (h.tasks _ _ ht) hphase, (h.completeDownload _).setTask _ _, rfl,
        unspawned_setTask ht⟩
  | endTask ht hphase =>
      exact ⟨_, .endTask (h.tasks _ _ ht) hphase, (h.modifyState _ _).setTask _ _, rfl,
        unspawned_setTask ht⟩
  | evict =>
      exact ⟨_, .evict, ⟨h.downloads, h.states, h.next, by simp [h.cache], h.written, h.tasks⟩, rfl,
        fun _ => ⟨Iff.rfl, fun _ => rfl⟩⟩
  | restore hwritten hhash =>
      exact ⟨_, .restore (h.written ▸ hwritten) hhash,
        ⟨h.downloads, h.states, h.next, by simp [h.cache], h.written, h.tasks⟩, rfl,
        fun _ => ⟨Iff.rfl, fun _ => rfl⟩⟩

theorem Represents.reaches_move (h : Represents E w s) (htr : Tracked s) {a : Action ι}
    {s₀' : State ι} (hclient : ¬ a.OfClient) (hstep : Step E w.shared.toState a s₀') :
    Reaches E s { w with shared := s₀'.shared } := by
  rcases h.agrees.step hclient hstep with ⟨s', hstep', hagrees, hclients, hunspawned⟩
  refine ⟨[a], s', .single hstep', ?_, htr.step hstep'⟩
  refine ⟨hagrees.downloads, hagrees.states, hagrees.next, hagrees.cache, hagrees.written,
    hagrees.tasks, ?_, ?_, ?_⟩
  · intro d t ht hnone
    have hbefore : w.shared.tasks d = none := (hunspawned d).1.1 hnone
    rw [(hunspawned d).2 hbefore] at ht
    exact h.unspawned d t ht hbefore
  · intro c d hc
    rcases h.starting c d hc with ⟨hnone, hnew⟩
    exact ⟨(hunspawned d).1.2 hnone, ((hunspawned d).2 hnone).trans hnew⟩
  · intro c
    rw [hclients]
    exact htr.keeps hstep' (h.threads c)

/-! ## Any run -/

theorem Represents.reaches (h : Represents E w s) (htr : Tracked s) {a : WorldAction ι}
    {w' : World ι} (hstep : WorldStep E w a w') : Reaches E s w' := by
  cases hstep with
  | call hthread hop => exact h.reaches_call htr hthread hop
  | reply hthread => exact h.reaches_reply htr hthread
  | poll hthread => exact h.reaches_poll htr hthread
  | closeWaiting hthread => exact h.reaches_closeWaiting htr hthread
  | closeSuspended hthread hop => exact h.reaches_closeSuspended htr hthread hop
  | closeStreaming hthread => exact h.reaches_closeStreaming htr hthread
  | move hclient hstep => exact h.reaches_move htr hclient hstep

theorem reaches_of_run {as : List (WorldAction ι)} (hrun : Run (WorldStep E) (World.init E) as w) :
    Reaches E .init w := by
  refine hrun.simulate (R := fun w s => Represents E w s ∧ Tracked s) ?_ ⟨.init, .init⟩
  intro w a w' s h hstep
  exact h.1.reaches h.2 hstep

/-- Whatever the handlers do, with the tasks and the cache between any two of their operations, is a
run of the system. -/
theorem represents_of_run {as : List (WorldAction ι)}
    (hrun : Run (WorldStep E) (World.init E) as w) :
    ∃ bs s, Run (Step E) .init bs s ∧ Represents E w s := by
  rcases reaches_of_run hrun with ⟨bs, s, hs, h, -⟩
  exact ⟨bs, s, hs, h⟩

end System

theorem served_exampleEnv : Served exampleEnv.config.security (exampleEnv.request 0) ∧
    Served exampleEnv.config.security (exampleEnv.request 1) := by
  decide +kernel

/-- One client starts the download and goes while it waits; the other joins before the task is
spawned, and gets the first chunk. -/
theorem exists_run_exampleEnv :
    ∃ as, ∃ w : World Nat, Run (WorldStep exampleEnv) (World.init exampleEnv) as w ∧
      w.threads 0 = .closed ∧
      ∃ head body, w.threads 1 = .streaming 0 head body [[104, 105]] none := by
  have hrun : Run (WorldStep exampleEnv) (World.init exampleEnv)
      [.call 0, .call 0, .call 1, .call 1, .call 0, .call 0, .move (.fetch 0),
        .move (.respond 0 ⟨200, []⟩), .close 0, .call 1, .call 1, .reply 1,
        .move (.chunk 0 [104, 105]), .poll 1] _ :=
    .cons (.call (threads_init served_exampleEnv.1) ⟨rfl, Or.inl rfl⟩) <|
    .cons (.call rfl ⟨rfl, rfl⟩) <|
    .cons (.call (threads_init served_exampleEnv.2) ⟨rfl, Or.inl rfl⟩) <|
    .cons (.call rfl ⟨rfl, rfl⟩) <| .cons (.call rfl ⟨rfl, rfl⟩) <|
    .cons (.call (r := ()) rfl rfl) <| .cons (.move id (.fetch rfl rfl)) <|
    .cons (.move id (.respond rfl rfl)) <| .cons (.closeWaiting rfl) <|
    .cons (.call (r := some (.ok (metaOf ⟨200, []⟩))) rfl ⟨rfl, rfl⟩) <|
    .cons (.call (r := ()) rfl rfl) <| .cons (.reply rfl) <|
    .cons (.move id (.chunk rfl rfl rfl (by decide))) <| .cons (.poll rfl) <| .nil _
  exact ⟨_, _, hrun, rfl, _, _, rfl⟩

theorem represents_of_run_join :
    ∃ (w : World Nat) (head : Head) (body : StreamingBody),
      w.threads 1 = .streaming 0 head body [[104, 105]] none ∧
        ∃ bs s, Run (Step exampleEnv) .init bs s ∧ Represents exampleEnv w s := by
  rcases exists_run_exampleEnv with ⟨as, w, hrun, -, head, body, hthread⟩
  exact ⟨w, head, body, hthread, represents_of_run hrun⟩

end Inflight
end Squiddish
