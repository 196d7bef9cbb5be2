import Squiddish.Inflight.Offsets

/-!
# Atomicity — an operation of the registry is one step

The lock lets one task or many into the registry, and they make their accesses one by one, with
everything that does not need the lock in between.  What all this comes to is a run of the handlers
in which every operation is a single step (`atomic_of_run`): `join_or_start_download` is taken when
it subscribes, or inserts; `add_chunk` when it sends, with the chunk it has pushed hidden until then;
the headers when they are sent; and `complete_download` when the handle of the registry is dropped.
-/

namespace Squiddish
namespace Inflight

open Lib Cache Proxy

variable {ι : Type} {E : Env ι}

/-! ## What the system knows -/

/-- The world stands for a state of the system. -/
def Known (E : Env ι) (w : World ι) : Prop :=
  ∃ s, Represents E w s ∧ Tracked s ∧ OwnReceivers s

/-- A thread about to use its receiver for the headers stands for a client that has one. -/
theorem Represents.listens {w : World ι} {s : State ι} (h : Represents E w s) {c : ι} {d : Nat}
    {p : HandlerProg (Outcome ClientResponse)} (hth : w.threads c = .running p)
    (hp : p.pending = some (.waitMeta d) ∨ p.pending = some (.dropMeta d)) :
    (s.clients c).Listens d := by
  have hharmless : ∀ {P}, Thread.Outside P (.running p) → False := by
    intro P hout
    cases p with
    | ret r =>
        simp [Prog.pending] at hp
    | call op next =>
        have hop : Harmless op := hout.1.1
        rcases hp with hp | hp <;> cases hp <;> exact hop
  have hmatch := h.threads c
  rw [hth] at hmatch
  cases hmatch with
  | never _ _ hout | settled _ hout =>
      exact (hharmless hout).elim
  | lookup _ | hit _ | hitReply _ | missed _ | subscribe _ _ | spawn _ _ | reply _ _ _ _ _ =>
      rcases hp with hp | hp <;> cases hp
  | wait hphase hd | headers hphase hd | failed hphase hd _ | abandoned hphase hd _ _ =>
      rcases hp with hp | hp <;> cases hp
      exact ⟨hd, by simp [hphase]⟩

/-- A task that has its guard finds its own download. -/
theorem Known.downloads_eq {w : World ι} (h : Known E w) {d : Nat} {t : Task ι}
    (ht : w.shared.tasks d = some t) (hlive : t.phase.Live) :
    w.shared.downloads t.key.hashHex = some d := by
  rcases h with ⟨s, hrep, htr, -⟩
  rw [← hrep.downloads]
  exact htr.delivering.registered.live d t (hrep.tasks d t ht) hlive

theorem Known.joinOrStart_eq {w : World ι} (h : Known E w) {c : ι} {key : CacheKey}
    {next : DownloadAction → HandlerProg (Outcome ClientResponse)}
    (hth : w.threads c = .running (.call (.joinOrStart key) next)) :
    key = E.key c ∧
      next = fun action => afterJoin (E.request c) (E.key c) action >>= finish := by
  rcases h with ⟨s, hrep, -, -⟩
  have hmatch := hrep.threads c
  rw [hth] at hmatch
  cases hmatch with
  | never _ _ hout | settled _ hout =>
      exact hout.1.1.elim
  | missed _ =>
      exact ⟨rfl, rfl⟩

/-! ## How far an operation has got -/

/-- What the handler of a client goes on with. -/
def goOn (E : Env ι) (c : ι) (action : DownloadAction) : Thread :=
  .running (afterJoin (E.request c) (E.key c) action >>= finish)

/-- A task under the lock for reading, and what its download is off by. -/
inductive ReadAt (E : Env ι) (sh : Shared ι) (d : Nat) :
    Option (Section ι) → (DownloadState → DownloadState) → Option (Task ι) → Prop
  | outside : ReadAt E sh d none id none
  | get {t after : Task ι} {a : Action ι} {body : Nat → RegistryProg Unit} :
      sh.tasks d = some t → ReadCall E d t a body after →
      ReadAt E sh d (some ⟨Registry.withEntry t.key body, after⟩) id none
  | found {t after : Task ι} {a : Action ι} {body : Nat → RegistryProg Unit} :
      sh.tasks d = some t → ReadCall E d t a body after →
      ReadAt E sh d (some ⟨body d, after⟩) id none
  -- joiners are kept out until the chunk is sent as well
  | pushed {t after : Task ι} {bytes : Bytes} {earlier : List Bytes}
      {body : Nat → RegistryProg Unit} :
      sh.tasks d = some t → ReadCall E d t (.chunk d bytes) body after →
      (sh.states d).accumulated = earlier ++ [bytes] →
      ReadAt E sh d (some ⟨.call (.send d bytes) .ret, after⟩) DownloadState.unpush none
  | leaving {t after : Task ι} :
      sh.tasks d = some t → ReadAt E sh d (some ⟨.ret (), after⟩) id (some after)

theorem ReadAt.congr {sh sh' : Shared ι} {d : Nat} {sec : Option (Section ι)}
    {f : DownloadState → DownloadState} {t : Option (Task ι)} (h : ReadAt E sh d sec f t)
    (htasks : sec ≠ none → sh'.tasks d = sh.tasks d)
    (haccumulated : (sh'.states d).accumulated = (sh.states d).accumulated) :
    ReadAt E sh' d sec f t := by
  cases h with
  | outside => exact .outside
  | get ht hcall => exact .get ((htasks (by simp)).trans ht) hcall
  | found ht hcall => exact .found ((htasks (by simp)).trans ht) hcall
  | pushed ht hcall hlast =>
      exact .pushed ((htasks (by simp)).trans ht) hcall (haccumulated.trans hlast)
  | leaving ht => exact .leaving ((htasks (by simp)).trans ht)

theorem ReadCall.live {d : Nat} {t after : Task ι} {a : Action ι}
    {body : Nat → RegistryProg Unit} (h : ReadCall E d t a body after) : t.phase.Live := by
  cases h with
  | respond hphase | chunk hphase _ _ | publishError hphase _ =>
      simp [hphase, TaskPhase.Live]

theorem ReadAt.unseen {sh : Shared ι} {d : Nat} {sec : Option (Section ι)}
    {f : DownloadState → DownloadState} {t : Option (Task ι)} (h : ReadAt E sh d sec f t) :
    Unseen f := by
  cases h with
  | pushed _ _ _ => exact .unpush
  | _ => exact .id

theorem ReadAt.receivers {sh : Shared ι} {d : Nat} {sec : Option (Section ι)}
    {f : DownloadState → DownloadState} {t : Option (Task ι)} (h : ReadAt E sh d sec f t)
    (st : DownloadState) : (f st).metaTx.receivers = st.metaTx.receivers := by
  cases h <;> rfl

theorem ReadAt.task_eq_none {sh : Shared ι} {d : Nat} {f : DownloadState → DownloadState}
    {t : Option (Task ι)} (h : ReadAt E sh d none f t) : f = id ∧ t = none := by
  cases h with
  | outside => exact ⟨rfl, rfl⟩

theorem ReadAt.isSome {sh : Shared ι} {d : Nat} {sec : Section ι}
    {f : DownloadState → DownloadState} {t : Option (Task ι)} (h : ReadAt E sh d (some sec) f t) :
    ∃ t, sh.tasks d = some t := by
  cases h with
  | get ht _ | found ht _ | pushed ht _ _ | leaving ht => exact ⟨_, ht⟩

namespace Offset

/-- The entry is in the registry. -/
def kept (hash : Str) (d : Nat) : Offset ι :=
  { zero with entry := some (hash, d) }

/-- The task has gone on. -/
def finished (d : Nat) (t : Task ι) : Offset ι :=
  { zero with task := Function.update (fun _ => none) d (some t) }

/-- The task has gone on, and the sender of the headers is dropped. -/
def dropped (d : Nat) (t : Task ι) : Offset ι :=
  { finished d t with state := Function.update (fun _ => id) d DownloadState.dropMetaTx }

end Offset

theorem world_finished (w : World ι) (d : Nat) (t : Task ι) :
    (Offset.finished d t).world w = w.setTask d t := by
  have hshared : (Offset.finished d t).shared w.shared = w.shared.spawn d t := by
    ext d' : 2
    case tasks =>
      by_cases hd : d' = d
      · subst hd
        simp [Offset.shared, Offset.finished, Shared.spawn]
      · simp [Offset.shared, Offset.finished, Offset.zero, Shared.spawn, hd]
    all_goals rfl
  exact World.ext hshared rfl

theorem world_dropped (w : World ι) (d : Nat) (t : Task ι) :
    (Offset.dropped d t).world w =
      ({ w with shared := w.shared.modifyState d DownloadState.dropMetaTx } : World ι).setTask
        d t := by
  have hshared : (Offset.dropped d t).shared w.shared =
      (w.shared.modifyState d DownloadState.dropMetaTx).spawn d t := by
    ext d' : 2
    case states =>
      by_cases hd : d' = d
      · subst hd
        simp [Offset.shared, Offset.dropped, Shared.modifyState, Shared.spawn]
      · simp [Offset.shared, Offset.dropped, Shared.modifyState, Shared.spawn, hd]
    case tasks =>
      exact congrFun (congrArg (fun w : World ι => w.shared.tasks) (world_finished w d t)) d'
    all_goals rfl
  exact World.ext hshared rfl

theorem base_modifyState (sh : Shared ι) (d : Nat) (f : DownloadState → DownloadState) (d' : Nat)
    (hd : d' ≠ d) : (sh.modifyState d f).tasks d' = sh.tasks d' ∧
      ((sh.modifyState d f).states d').accumulated = (sh.states d').accumulated := by
  simp [Shared.modifyState, hd]

/-- The state taken over: what the task has changed is what it changes in one step. -/
theorem shared_commit {sh : Shared ι} {state : Nat → DownloadState → DownloadState}
    {task : Nat → Option (Task ι)} {d : Nat} {key : CacheKey} {f g : DownloadState → DownloadState}
    (hd : sh.downloads key.hashHex = some d)
    (hf : f (state d (sh.states d)) = g (sh.states d)) (after : Task ι) :
    ({ Offset.zero with
        state := Function.update state d id
        task := Function.update task d (some after) } : Offset ι).shared (sh.modifyState d g) =
      (((({ Offset.zero with state := state, task := task } : Offset ι).shared
        sh).toState.withDownload key f).setTask d after).shared := by
  ext d' : 2
  case states =>
    by_cases heq : d' = d
    · subst heq
      simp [Offset.shared, Offset.zero, Offset.downloads, Shared.modifyState, State.withDownload,
        Shared.toState, State.shared, hd, hf]
    · simp [Offset.shared, Offset.zero, Offset.downloads, Shared.modifyState, State.withDownload,
        Shared.toState, State.shared, hd, heq]
  case tasks =>
    by_cases heq : d' = d
    · subst heq
      simp [Offset.shared, State.withDownload, Shared.toState, State.shared]
    · simp [Offset.shared, Offset.zero, Shared.modifyState, State.withDownload, Shared.toState,
        State.shared, heq]
  all_goals rfl

theorem DownloadState.addChunk_unpush {st : DownloadState} {earlier : List Bytes} {bytes : Bytes}
    (hlast : st.accumulated = earlier ++ [bytes]) :
    st.unpush.addChunk bytes = st.report (.data bytes) := by
  rcases st with ⟨sender, accumulated, metaTx⟩
  cases hlast
  simp [DownloadState.unpush, DownloadState.addChunk, DownloadState.report]

/-- A chunk that has been pushed is hidden. -/
theorem shared_pushed {sh : Shared ι} {state : Nat → DownloadState → DownloadState}
    {task : Nat → Option (Task ι)} {d : Nat} (hstate : state d = id) (htask : task d = none)
    (bytes : Bytes) :
    ({ Offset.zero with
        state := Function.update state d DownloadState.unpush
        task := Function.update task d none } : Offset ι).shared
          (sh.modifyState d (fun st => st.push bytes)) =
      ({ Offset.zero with state := state, task := task } : Offset ι).shared sh := by
  rw [← htask, Function.update_eq_self]
  ext d' : 2
  case states =>
    by_cases heq : d' = d
    · subst heq
      simp [Offset.shared, Shared.modifyState, DownloadState.push, DownloadState.unpush, hstate]
    · simp [Offset.shared, Shared.modifyState, heq]
  all_goals rfl

/-- The task that leaves the registry is what it was taken to be. -/
theorem shared_left {sh : Shared ι} {state : Nat → DownloadState → DownloadState}
    {task : Nat → Option (Task ι)} {d : Nat} {after : Task ι} (htask : task d = some after) :
    ({ Offset.zero with state := state, task := Function.update task d none } : Offset ι).shared
        (sh.spawn d after) =
      ({ Offset.zero with state := state, task := task } : Offset ι).shared sh := by
  ext d' : 2
  case tasks =>
    by_cases heq : d' = d
    · subst heq
      simp [Offset.shared, Shared.spawn, htask]
    · simp [Offset.shared, Shared.spawn, heq]
  all_goals rfl

/-- An entry that has been removed is taken to be there. -/
theorem shared_kept {sh : Shared ι} {key : CacheKey} {d : Nat}
    (hd : sh.downloads key.hashHex = some d) :
    (Offset.kept key.hashHex d).shared
        { sh with downloads := Function.update sh.downloads key.hashHex none } = sh := by
  have hback : Function.update (Function.update sh.downloads key.hashHex none) key.hashHex
      (some d) = sh.downloads := by
    rw [Function.update_idem, ← hd, Function.update_eq_self]
  exact Shared.ext hback rfl rfl rfl rfl rfl

theorem shared_completed {sh : Shared ι} {key : CacheKey} {d : Nat}
    (hd : sh.downloads key.hashHex = none) (t : Task ι) :
    ((((Offset.kept key.hashHex d).shared sh).toState.completeDownload key).setTask d t).shared =
      ((sh.modifyState d DownloadState.dropSender).modifyState d DownloadState.dropMetaTx).spawn
        d t := by
  have hback : Function.update (Function.update sh.downloads key.hashHex (some d)) key.hashHex
      none = sh.downloads := by
    rw [Function.update_idem, ← hd, Function.update_eq_self]
  refine Shared.ext hback ?_ rfl rfl rfl rfl
  ext d' : 1
  by_cases heq : d' = d
  · subst heq
    simp [State.shared, State.completeDownload, State.withDownload, Shared.toState,
      Shared.modifyState, Shared.spawn, Offset.shared, Offset.kept, Offset.downloads, Offset.zero,
      DownloadState.dropSender, DownloadState.dropMetaTx, DownloadState.unregister]
  · simp [State.shared, State.completeDownload, State.withDownload, Shared.toState,
      Shared.modifyState, Shared.spawn, Offset.shared, Offset.kept, Offset.downloads, Offset.zero,
      heq]

section Lock

variable [DecidableEq ι]

theorem known_of_run {w : World ι} {as : List (WorldAction ι)}
    (hrun : Run (WorldStep E) (World.init E) as w) : Known E w := by
  rcases reaches_of_run hrun with ⟨bs, s, hs, h, -⟩
  have hboth : Tracked s ∧ OwnReceivers s :=
    hs.invariant (I := fun s => Tracked s ∧ OwnReceivers s)
      (fun s a s' hI hstep =>
        ⟨hI.1.step hstep, hI.2.step hI.1.delivering.registered hstep⟩) ⟨.init, .init⟩
  exact ⟨s, h, hboth⟩

namespace Offset

/-- The client has its answer. -/
def resumed (c : ι) (th : Thread) : Offset ι :=
  { zero with thread := Function.update (fun _ => none) c (some th) }

/-- The client has its answer and its receiver for the headers. -/
def joined (c : ι) (d : Nat) (th : Thread) : Offset ι :=
  { resumed c th with state := Function.update (fun _ => id) d DownloadState.subscribeMeta }

end Offset

/-- The client `c` in `join_or_start_download`. -/
inductive JoinAt (E : Env ι) (sh : Shared ι) (c : ι) :
    RegistryProg DownloadAction → Offset ι → Prop
  | get : JoinAt E sh c (Registry.joinOrStartDownload (E.key c)) .zero
  | found {d : Nat} :
      sh.downloads (E.key c).hashHex = some d → JoinAt E sh c (Registry.join d) .zero
  -- no chunk can come between the subscription and the list
  | subscribed {d : Nat} {rx : Receiver} :
      JoinAt E sh c
        (.call (.accumulated d) fun chunks =>
          .call (.subscribeMeta d) fun _ => .ret (.joined d rx chunks))
        (.joined c d (goOn E c (.joined d rx (sh.states d).accumulated)))
  | copied {d : Nat} {rx : Receiver} {chunks : List Bytes} :
      JoinAt E sh c (.call (.subscribeMeta d) fun _ => .ret (.joined d rx chunks))
        (.joined c d (goOn E c (.joined d rx chunks)))
  | absent :
      sh.downloads (E.key c).hashHex = none → JoinAt E sh c (Registry.start (E.key c)) .zero
  | leaving {action : DownloadAction} :
      JoinAt E sh c (.ret action) (.resumed c (goOn E c action))

/-- The guard of the task of `d` in `complete_download`. -/
inductive CompleteAt (sh : Shared ι) (d : Nat) (t : Task ι) :
    RegistryProg Unit → Offset ι → Prop
  | get : CompleteAt sh d t (Registry.completeDownload t.key) .zero
  | removed :
      sh.downloads t.key.hashHex = none →
      CompleteAt sh d t (Registry.dropEntry d) (.kept t.key.hashHex d)
  | dropped :
      CompleteAt sh d t (.call (.dropMetaTx d) .ret) (.dropped d { t with phase := .released })
  | leaving : CompleteAt sh d t (.ret ()) (.finished d { t with phase := .released })

inductive LockAt (E : Env ι) (w : World ι) : RwLock ι → Offset ι → Prop
  | read {readers : Nat → Option (Section ι)} {state : Nat → DownloadState → DownloadState}
      {task : Nat → Option (Task ι)} :
      (∀ d, ReadAt E w.shared d (readers d) (state d) (task d)) →
      LockAt E w (.read readers) { Offset.zero with state := state, task := task }
  | client {c : ι} {p : RegistryProg DownloadAction} {o : Offset ι} :
      w.threads c = .running (.call (.joinOrStart (E.key c))
        (fun action => afterJoin (E.request c) (E.key c) action >>= finish)) →
      JoinAt E w.shared c p o → LockAt E w (.written (.client c p)) o
  | task {d : Nat} {t : Task ι} {p : RegistryProg Unit} {o : Offset ι} :
      w.shared.tasks d = some t →
      t.phase = .completeSent ∨ t.phase = .errorSent ∨ t.phase = .panicked →
      CompleteAt w.shared d t p o →
      LockAt E w (.written (.task d ⟨p, { t with phase := .released }⟩)) o

/-! ## What an offset does not touch -/

theorem unseen_update {f : DownloadState → DownloadState} (h : Unseen f) (d d' : Nat) :
    Unseen (Function.update (fun _ => id) d f d') := by
  by_cases hd : d' = d
  · subst hd
    simpa using h
  · simpa [hd] using Unseen.id

theorem LockAt.frame {l : Locked ι} {o : Offset ι} {w' : World ι} (h : LockAt E l.world l.lock o)
    (hframe : LeavesBe l w') : LockAt E w' l.lock o := by
  rcases l with ⟨w, lock⟩
  cases h with
  | @read readers state task hread =>
      refine .read ?_
      intro d
      refine (hread d).congr ?_ (hframe.base.accumulated d)
      intro hsec
      exact hframe.base.tasks d (not_not_intro hsec)
  | @client c p o hth hjoin =>
      refine .client ((hframe.threads c _ _ hth).trans hth) ?_
      cases hjoin with
      | get => exact .get
      | found hd => exact .found ((congrFun hframe.base.downloads _).trans hd)
      | @subscribed d rx =>
          rw [← hframe.base.accumulated d]
          exact .subscribed
      | copied => exact .copied
      | absent hd => exact .absent ((congrFun hframe.base.downloads _).trans hd)
      | leaving => exact .leaving
  | @task d t p o ht hphase hcomplete =>
      refine .task ((hframe.base.tasks d (not_not_intro rfl)).trans ht) hphase ?_
      cases hcomplete with
      | get => exact .get
      | removed hd => exact .removed ((congrFun hframe.base.downloads _).trans hd)
      | dropped => exact .dropped
      | leaving => exact .leaving

/-! ## The offset fits -/

theorem LockAt.unseen {w : World ι} {lock : RwLock ι} {o : Offset ι} (h : LockAt E w lock o)
    (d : Nat) : Unseen (o.state d) := by
  cases h with
  | read hread => exact (hread d).unseen
  | client _ hjoin =>
      cases hjoin with
      | subscribed | copied => exact unseen_update .subscribeMeta _ d
      | _ => exact .id
  | task _ _ hcomplete =>
      cases hcomplete with
      | dropped => exact unseen_update .dropMetaTx _ d
      | _ => exact .id

/-- Only a task in the registry may have gone on. -/
theorem LockAt.task_eq_none {w : World ι} {lock : RwLock ι} {o : Offset ι}
    (h : LockAt E w lock o) {d : Nat} (hd : ¬ lock.Holds d) : o.task d = none := by
  cases h with
  | @read readers state task hread =>
      have hat := hread d
      rw [not_not.1 hd] at hat
      exact hat.task_eq_none.2
  | client _ hjoin =>
      cases hjoin <;> rfl
  | @task d' t p o _ _ hcomplete =>
      have hne : d ≠ d' := hd
      cases hcomplete with
      | dropped | leaving => simp [Offset.dropped, Offset.finished, hne]
      | _ => rfl

/-- The thread of a client in the registry waits for its answer there. -/
theorem LockAt.thread_eq_none {w : World ι} {lock : RwLock ι} {o : Offset ι}
    (h : LockAt E w lock o) {c : ι} (hc : ∀ p, lock ≠ .written (.client c p)) :
    o.thread c = none := by
  cases h with
  | read _ => rfl
  | @client c' p o _ hjoin =>
      have hne : c ≠ c' := by
        intro heq
        exact hc p (by rw [heq])
      cases hjoin with
      | subscribed | copied | leaving => simp [Offset.joined, Offset.resumed, hne]
      | _ => rfl
  | task _ _ hcomplete =>
      cases hcomplete <;> rfl

theorem LockAt.exists_task {w : World ι} {lock : RwLock ι} {o : Offset ι}
    (h : LockAt E w lock o) {d : Nat} (hd : lock.Holds d) : ∃ t, w.shared.tasks d = some t := by
  cases h with
  | @read readers state task hread =>
      cases hsec : readers d with
      | none => exact absurd hsec hd
      | some sec =>
          have hat := hread d
          rw [hsec] at hat
          exact hat.isSome
  | client _ _ => exact hd.elim
  | task ht _ _ =>
      cases hd
      exact ⟨_, ht⟩

/-- Only a client that is joining has one receiver more than can be seen. -/
theorem LockAt.receivers {w : World ι} {lock : RwLock ι} {o : Offset ι} (h : LockAt E w lock o)
    (d : Nat) :
    (∀ st, (o.state d st).metaTx.receivers = st.metaTx.receivers) ∨
      ((∀ st, (o.state d st).metaTx.receivers = st.metaTx.receivers + 1) ∧
        ∃ c rx chunks, o.thread c = some (goOn E c (.joined d rx chunks))) := by
  cases h with
  | read hread => exact Or.inl (hread d).receivers
  | @client c _ _ _ hjoin =>
      cases hjoin with
      | @subscribed d' rx =>
          by_cases hd : d = d'
          · subst hd
            exact Or.inr ⟨by simp [Offset.joined, DownloadState.subscribeMeta, Watch.subscribe],
              c, rx, (w.shared.states d).accumulated, by simp [Offset.joined, Offset.resumed]⟩
          · exact Or.inl (by simp [Offset.joined, hd])
      | @copied d' rx chunks =>
          by_cases hd : d = d'
          · subst hd
            exact Or.inr ⟨by simp [Offset.joined, DownloadState.subscribeMeta, Watch.subscribe],
              c, rx, chunks, by simp [Offset.joined, Offset.resumed]⟩
          · exact Or.inl (by simp [Offset.joined, hd])
      | _ => exact Or.inl (fun _ => rfl)
  | @task d' _ _ _ _ _ hcomplete =>
      cases hcomplete with
      | dropped =>
          by_cases hd : d = d'
          · subst hd
            exact Or.inl (by simp [Offset.dropped, DownloadState.dropMetaTx, Watch.dropSender])
          · exact Or.inl (by simp [Offset.dropped, hd])
      | _ => exact Or.inl (fun _ => rfl)

/-- A client that is about to use its receiver has one, also beside one that is joining. -/
theorem LockAt.receivers_pos {l : Locked ι} {o : Offset ι} (h : LockAt E l.world l.lock o)
    (hknown : Known E (o.world l.world)) {c : ι} {d : Nat}
    {p : HandlerProg (Outcome ClientResponse)} (hth : l.world.threads c = .running p)
    (hnone : o.thread c = none)
    (hp : p.pending = some (.waitMeta d) ∨ p.pending = some (.dropMeta d)) :
    0 < (l.world.shared.states d).metaTx.receivers := by
  rcases hknown with ⟨s, hrep, -, hown⟩
  have hlistens := hrep.listens ((Offset.threads_world hnone _).trans hth) hp
  have hstates : (s.states d).metaTx.receivers =
      (o.state d (l.world.shared.states d)).metaTx.receivers :=
    congrArg (fun states => (states d).metaTx.receivers) hrep.states
  rcases h.receivers d with hsame | ⟨hmore, c', rx, chunks, hjoined⟩
  · have hone := hown d {c} (by simpa using hlistens)
    rw [Finset.card_singleton, hstates, hsame] at hone
    exact hone
  · have hne : c ≠ c' := by
      intro heq
      simp [← heq, hnone] at hjoined
    -- the one that joins has its own
    have hth' : (o.world l.world).threads c' = goOn E c' (.joined d rx chunks) := by
      simp [Offset.world, hjoined]
    have hlistens' := hrep.listens hth' (Or.inl rfl)
    have htwo := hown d {c, c'} (by simp [hlistens, hlistens'])
    rw [Finset.card_pair hne, hstates, hmore] at htwo
    exact Nat.le_of_succ_le_succ htwo

theorem LockAt.fits {l : Locked ι} {o : Offset ι} (h : LockAt E l.world l.lock o)
    (hknown : Known E (o.world l.world)) : o.Fits l := by
  have hthread : ∀ c, (∀ key next, l.world.threads c ≠ .running (.call (.joinOrStart key) next)) →
      o.thread c = none := by
    intro c hnot
    refine h.thread_eq_none ?_
    intro p hlock
    rw [hlock] at h
    cases h with
    | client hth _ => exact hnot _ _ hth
  refine ⟨h.unseen, fun d hd => h.task_eq_none hd, hthread, ?_, ?_⟩
  · intro c d hstarting hholds
    have hnone := hthread c (by
      intro key next heq
      rw [heq] at hstarting
      exact idle_call id d hstarting)
    rcases hknown with ⟨s, hrep, -, -⟩
    rcases h.exists_task hholds with ⟨t, ht⟩
    rw [← Offset.threads_world hnone] at hstarting
    -- the task is in the registry, so it has been spawned
    have habsent := (hrep.starting c d hstarting).1
    simp [Offset.world, Offset.shared, ht] at habsent
  · intro c d p hth hp
    refine h.receivers_pos hknown hth (hthread c ?_) hp
    intro key next heq
    rw [hth] at heq
    cases heq
    rcases hp with hp | hp <;> cases hp

/-! ## The two states of one operation -/

/-- In `w` the operations under way are over, or have not begun. -/
def TakenAs (E : Env ι) (l : Locked ι) (w : World ι) : Prop :=
  ∃ o, LockAt E l.world l.lock o ∧ w = o.world l.world

/-- The handlers come from `w` to where the accesses are. -/
def ReachesLocked (E : Env ι) (w : World ι) (l : Locked ι) : Prop :=
  ∃ as w', Run (WorldStep E) w as w' ∧ TakenAs E l w'

theorem ReachesLocked.stutter {w : World ι} {l : Locked ι} {o : Offset ι}
    (h : LockAt E l.world l.lock o) (heq : o.world l.world = w) : ReachesLocked E w l :=
  ⟨[], w, .nil w, o, h, heq.symm⟩

theorem ReachesLocked.single {w w' : World ι} {a : WorldAction ι} {l : Locked ι} {o : Offset ι}
    (hstep : WorldStep E w a w') (h : LockAt E l.world l.lock o) (heq : o.world l.world = w') :
    ReachesLocked E w l :=
  ⟨[a], w', .single hstep, o, h, heq.symm⟩

theorem LockAt.eq_zero_of_free {w : World ι} {o : Offset ι} (h : LockAt E w .free o) :
    o = .zero := by
  cases h with
  | @read _ state task hread =>
      have hstate : state = fun _ => id := funext fun d => (hread d).task_eq_none.1
      have htask : task = fun _ => none := funext fun d => (hread d).task_eq_none.2
      rw [hstate, htask]
      rfl

theorem LockAt.free (w : World ι) : LockAt E w .free .zero :=
  .read (fun _ => .outside)

section Worlds

variable (w : World ι) (c : ι) (d : Nat) (th : Thread)

theorem world_resumed : (Offset.resumed c th).world w = w.setThread c th := by
  ext c' : 2
  case threads =>
    by_cases hc : c' = c
    · subst hc
      simp [Offset.world, Offset.resumed]
    · simp [Offset.world, Offset.resumed, Offset.zero, hc]
  all_goals rfl

theorem shared_joined : (Offset.joined c d th).shared w.shared =
    w.shared.modifyState d DownloadState.subscribeMeta := by
  ext d' : 2
  case states =>
    by_cases hd : d' = d
    · subst hd
      simp [Offset.shared, Offset.joined, Shared.modifyState]
    · simp [Offset.shared, Offset.joined, Shared.modifyState, hd]
  all_goals rfl

theorem world_joined : (Offset.joined c d th).world w =
    ({ w with shared := w.shared.modifyState d DownloadState.subscribeMeta } : World ι).setThread
      c th := by
  have hthreads := congrArg World.threads (world_resumed w c th)
  exact World.ext (shared_joined w c d th) hthreads

end Worlds

/-! ## `join_or_start_download` -/

theorem reaches_enterJoin {w : World ι} {c : ι} {o : Offset ι} {key : CacheKey}
    {next : DownloadAction → HandlerProg (Outcome ClientResponse)}
    (h : LockAt E w .free o) (hknown : Known E (o.world w))
    (hth : w.threads c = .running (.call (.joinOrStart key) next)) :
    ReachesLocked E (o.world w)
      ⟨w, .written (.client c (Registry.joinOrStartDownload key))⟩ := by
  have hzero := h.eq_zero_of_free
  subst hzero
  rcases hknown.joinOrStart_eq hth with ⟨rfl, rfl⟩
  exact .stutter (.client hth .get) rfl

theorem reaches_accessJoin {w : World ι} {c : ι} {o : Offset ι} {op : RegistryOp}
    {rest : op.Answer → RegistryProg DownloadAction}
    (h : LockAt E w (.written (.client c (.call op rest))) o) :
    ReachesLocked E (o.world w)
      ⟨{ w with shared := (op.apply w.shared).2 },
        .written (.client c (rest (op.apply w.shared).1))⟩ := by
  generalize hlock : RwLock.written (Writer.client c (.call op rest)) = lock at h
  cases h with
  | read _ | task _ _ _ =>
      cases hlock
  | @client c p o hth hjoin =>
      cases hjoin with
      | get =>
          cases hlock
          cases hd : w.shared.downloads (E.key c).hashHex with
          | some d =>
              refine .stutter (.client hth ?_) rfl
              simpa only [RegistryOp.apply, hd] using JoinAt.found hd
          | none =>
              refine .stutter (.client hth ?_) rfl
              simpa only [RegistryOp.apply, hd] using JoinAt.absent hd
      | @found d hd =>
          cases hlock
          -- the subscription is where the client joins
          have hperforms : Performs c (.joinOrStart (E.key c)) w.shared
              (.joined d (w.shared.states d).sender.subscribe (w.shared.states d).accumulated)
              (w.shared.modifyState d DownloadState.subscribeMeta) := by
            simp [Performs, hd]
          exact .single (.call hth hperforms) (.client hth .subscribed) (world_joined w c d _)
      | subscribed =>
          cases hlock
          exact .stutter (.client hth .copied) rfl
      | @copied d rx chunks =>
          cases hlock
          refine .stutter (.client hth .leaving) ?_
          rw [world_joined, world_resumed]
          rfl
      | absent hd =>
          cases hlock
          have hperforms : Performs c (.joinOrStart (E.key c)) w.shared
              (.started w.shared.next) (w.shared.register (E.key c)) := by
            simp [Performs, hd]
          exact .single (.call hth hperforms) (.client hth .leaving) (world_resumed _ c _)
      | leaving =>
          cases hlock

theorem reaches_leaveJoin {w : World ι} {c : ι} {o : Offset ι} {key : CacheKey}
    {action : DownloadAction} {next : DownloadAction → HandlerProg (Outcome ClientResponse)}
    (h : LockAt E w (.written (.client c (.ret action))) o)
    (hth : w.threads c = .running (.call (.joinOrStart key) next)) :
    ReachesLocked E (o.world w) ⟨w.setThread c (.running (next action)), .free⟩ := by
  generalize hlock : RwLock.written (Writer.client c (.ret action)) = lock at h
  cases h with
  | read _ | task _ _ _ =>
      cases hlock
  | @client c p o hth' hjoin =>
      cases hjoin with
      | leaving =>
          cases hlock
          have hsame := hth'.symm.trans hth
          cases hsame
          exact .stutter (.free _) (world_resumed w c _).symm
      | get | found _ | subscribed | copied | absent _ =>
          cases hlock

/-! ## Under the lock for reading -/

/-- The readers with the one of `d` moved on. -/
theorem LockAt.readers {w : World ι} {sh' : Shared ι} {readers : Nat → Option (Section ι)}
    {state : Nat → DownloadState → DownloadState} {task : Nat → Option (Task ι)}
    (hread : ∀ d, ReadAt E w.shared d (readers d) (state d) (task d)) {d : Nat}
    {sec : Option (Section ι)} {f : DownloadState → DownloadState} {t : Option (Task ι)}
    (hbase : ∀ d', d' ≠ d → sh'.tasks d' = w.shared.tasks d' ∧
      (sh'.states d').accumulated = (w.shared.states d').accumulated)
    (hown : ReadAt E sh' d sec f t) :
    LockAt E { w with shared := sh' } (.read (Function.update readers d sec))
      { Offset.zero with
        state := Function.update state d f, task := Function.update task d t } := by
  refine .read ?_
  intro d'
  by_cases hd : d' = d
  · subst hd
    simpa using hown
  · simpa [hd] using (hread d').congr (fun _ => (hbase d' hd).1) (hbase d' hd).2

theorem reaches_enterRead {w : World ι} {readers : Nat → Option (Section ι)} {o : Offset ι}
    {d : Nat} {t after : Task ι} {a : Action ι} {body : Nat → RegistryProg Unit}
    (h : LockAt E w (.read readers) o) (hd : readers d = none) (ht : w.shared.tasks d = some t)
    (hcall : ReadCall E d t a body after) :
    ReachesLocked E (o.world w)
      ⟨w, .read (Function.update readers d (some ⟨Registry.withEntry t.key body, after⟩))⟩ := by
  cases h with
  | @read _ state task hread =>
      have hat := hread d
      rw [hd] at hat
      have hmoved : LockAt E w _ _ :=
        .readers hread (fun _ _ => ⟨rfl, rfl⟩) (.get ht hcall)
      rw [← hat.task_eq_none.1, ← hat.task_eq_none.2, Function.update_eq_self,
        Function.update_eq_self] at hmoved
      exact .stutter hmoved rfl

/-- The access at which a task makes its step. -/
theorem reaches_commit {w : World ι} {readers : Nat → Option (Section ι)}
    {state : Nat → DownloadState → DownloadState} {task : Nat → Option (Task ι)} {d : Nat}
    {t after : Task ι} {a : Action ι} {f g : DownloadState → DownloadState}
    (hread : ∀ d, ReadAt E w.shared d (readers d) (state d) (task d))
    (hd : w.shared.downloads t.key.hashHex = some d) (ht : w.shared.tasks d = some t)
    (hf : f (state d (w.shared.states d)) = g (w.shared.states d)) (hclient : ¬ a.OfClient)
    (hstep : Step E
      (({ Offset.zero with state := state, task := task } : Offset ι).shared w.shared).toState a
      (((({ Offset.zero with state := state, task := task } : Offset ι).shared
        w.shared).toState.withDownload t.key f).setTask d after)) :
    ReachesLocked E (({ Offset.zero with state := state, task := task } : Offset ι).world w)
      ⟨{ w with shared := w.shared.modifyState d g },
        .read (Function.update readers d (some ⟨.ret (), after⟩))⟩ := by
  have hmove := WorldStep.move
    (w := ({ Offset.zero with state := state, task := task } : Offset ι).world w) hclient hstep
  have hleaving : ReadAt E (w.shared.modifyState d g) d (some ⟨.ret (), after⟩) id (some after) :=
    .leaving ht
  refine .single hmove (.readers hread (base_modifyState w.shared d g) hleaving) ?_
  exact World.ext (shared_commit hd hf after) rfl

theorem reaches_accessRead {w : World ι} {readers : Nat → Option (Section ι)} {o : Offset ι}
    {d : Nat} {op : RegistryOp} {rest : op.Answer → RegistryProg Unit} {after : Task ι}
    (h : LockAt E w (.read readers) o) (hknown : Known E (o.world w))
    (hsec : readers d = some ⟨.call op rest, after⟩) :
    ReachesLocked E (o.world w)
      ⟨{ w with shared := (op.apply w.shared).2 },
        .read (Function.update readers d (some ⟨rest (op.apply w.shared).1, after⟩))⟩ := by
  cases h with
  | @read _ state task hread =>
      have hat := hread d
      rw [hsec] at hat
      generalize hstate : state d = f at hat
      generalize htask : task d = x at hat
      generalize hsome : some (⟨.call op rest, after⟩ : Section ι) = sec at hat
      -- the task has not gone on yet, so its download is registered under its key
      have hfind : ∀ {t t' : Task ι} {a : Action ι} {body : Nat → RegistryProg Unit},
          task d = none → w.shared.tasks d = some t → ReadCall E d t a body t' →
          w.shared.downloads t.key.hashHex = some d := by
        intro t t' a body hnone ht hcall
        exact hknown.downloads_eq ((Offset.tasks_shared hnone _).trans ht) hcall.live
      cases hat with
      | outside | leaving _ =>
          cases hsome
      | get ht hcall =>
          cases hsome
          have hd := hfind htask ht hcall
          have hmoved : LockAt E w _ _ :=
            .readers hread (fun _ _ => ⟨rfl, rfl⟩) (.found ht hcall)
          rw [← hstate, ← htask, Function.update_eq_self, Function.update_eq_self] at hmoved
          refine .stutter ?_ rfl
          simpa only [RegistryOp.apply, hd] using hmoved
      | @found t _ _ _ ht hcall =>
          have hd := hfind htask ht hcall
          have ht' := (Offset.tasks_shared (o := { Offset.zero with state := state, task := task })
            htask w.shared).trans ht
          cases hcall with
          | @respond resp hphase =>
              cases hsome
              refine reaches_commit (f := fun st => st.publish (.ok (metaOf resp)))
                (g := fun st => st.publish (.ok (metaOf resp))) hread hd ht ?_ id
                (.respond ht' hphase)
              simp [hstate]
          | @chunk resp bytes hphase hresp hsize =>
              cases hsome
              -- the chunk is there, and nobody is let in to see it
              have hlast : ((w.shared.modifyState d (fun st => st.push bytes)).states d).accumulated =
                  (w.shared.states d).accumulated ++ [bytes] := by
                simp [Shared.modifyState, DownloadState.push]
              refine .stutter (.readers hread
                (base_modifyState w.shared d (fun st => st.push bytes))
                (.pushed ht (.chunk hphase hresp hsize) hlast)) ?_
              exact World.ext (shared_pushed hstate htask bytes) rfl
          | @publishError e hphase hfailure =>
              cases hsome
              refine reaches_commit (f := fun st => st.publish (.error e.toText))
                (g := fun st => st.publish (.error e.toText)) hread hd ht ?_ id
                (.publishError ht' hphase hfailure)
              simp [hstate]
      | @pushed t _ bytes _ _ ht hcall hlast =>
          cases hsome
          have hd := hfind htask ht hcall
          have ht' := (Offset.tasks_shared (o := { Offset.zero with state := state, task := task })
            htask w.shared).trans ht
          cases hcall with
          | chunk hphase hresp hsize =>
              refine reaches_commit (f := fun st => st.addChunk bytes)
                (g := fun st => st.report (.data bytes)) hread hd ht ?_ id
                (.chunk ht' hphase hresp hsize)
              rw [hstate]
              exact DownloadState.addChunk_unpush hlast

theorem reaches_leaveRead {w : World ι} {readers : Nat → Option (Section ι)} {o : Offset ι}
    {d : Nat} {after : Task ι} (h : LockAt E w (.read readers) o)
    (hsec : readers d = some ⟨.ret (), after⟩) :
    ReachesLocked E (o.world w)
      ⟨w.setTask d after, .read (Function.update readers d none)⟩ := by
  cases h with
  | @read _ state task hread =>
      have hat := hread d
      rw [hsec] at hat
      generalize hstate : state d = f at hat
      generalize htask : task d = x at hat
      generalize hsome : some (⟨.ret (), after⟩ : Section ι) = sec at hat
      cases hat with
      | outside | get _ _ | pushed _ _ _ =>
          cases hsome
      | found _ hcall =>
          cases hcall <;> cases hsome
      | leaving ht =>
          cases hsome
          have hbase : ∀ d', d' ≠ d →
              (w.shared.spawn d after).tasks d' = w.shared.tasks d' ∧
                ((w.shared.spawn d after).states d').accumulated =
                  (w.shared.states d').accumulated := by
            intro d' hd
            simp [Shared.spawn, hd]
          have hmoved : LockAt E (w.setTask d after) _ _ := .readers hread hbase .outside
          rw [← hstate, Function.update_eq_self] at hmoved
          exact .stutter hmoved (World.ext (shared_left htask) rfl)

/-! ## `complete_download` -/

theorem reaches_enterComplete {w : World ι} {o : Offset ι} {d : Nat} {t : Task ι}
    (h : LockAt E w .free o) (ht : w.shared.tasks d = some t)
    (hphase : t.phase = .completeSent ∨ t.phase = .errorSent ∨ t.phase = .panicked) :
    ReachesLocked E (o.world w)
      ⟨w, .written (.task d ⟨Registry.completeDownload t.key,
        { t with phase := .released }⟩)⟩ := by
  have hzero := h.eq_zero_of_free
  subst hzero
  exact .stutter (.task ht hphase .get) rfl

theorem reaches_accessComplete {w : World ι} {o : Offset ι} {d : Nat} {op : RegistryOp}
    {rest : op.Answer → RegistryProg Unit} {after : Task ι}
    (h : LockAt E w (.written (.task d ⟨.call op rest, after⟩)) o)
    (hknown : Known E (o.world w)) :
    ReachesLocked E (o.world w)
      ⟨{ w with shared := (op.apply w.shared).2 },
        .written (.task d ⟨rest (op.apply w.shared).1, after⟩)⟩ := by
  generalize hlock : RwLock.written (Writer.task d ⟨.call op rest, after⟩) = lock at h
  cases h with
  | read _ | client _ _ =>
      cases hlock
  | @task d t p o ht hphase hcomplete =>
      have hlive : t.phase.Live := by
        rcases hphase with hphase | hphase | hphase <;> simp [hphase, TaskPhase.Live]
      cases hcomplete with
      | get =>
          cases hlock
          have hd : w.shared.downloads t.key.hashHex = some d := hknown.downloads_eq ht hlive
          have hgone : CompleteAt
              { w.shared with
                downloads := Function.update w.shared.downloads t.key.hashHex none } d t
              (Registry.dropEntry d) (.kept t.key.hashHex d) :=
            .removed (by simp)
          refine .stutter (o := .kept t.key.hashHex d) (.task ht hphase ?_) ?_
          · simpa only [RegistryOp.apply, hd] using hgone
          · exact World.ext (shared_kept hd) rfl
      | removed hd =>
          cases hlock
          have hmove := WorldStep.move (w := (Offset.kept t.key.hashHex d).world w) id
            (Step.completeDownload (E := E) ht hphase)
          refine .single hmove (.task ht hphase .dropped) ?_
          rw [world_dropped]
          exact World.ext (shared_completed hd _).symm rfl
      | dropped =>
          cases hlock
          refine .stutter (.task ht hphase .leaving) ?_
          rw [world_finished, world_dropped]
          rfl
      | leaving =>
          cases hlock

theorem reaches_leaveComplete {w : World ι} {o : Offset ι} {d : Nat} {after : Task ι}
    (h : LockAt E w (.written (.task d ⟨.ret (), after⟩)) o) :
    ReachesLocked E (o.world w) ⟨w.setTask d after, .free⟩ := by
  generalize hlock : RwLock.written (Writer.task d ⟨.ret (), after⟩) = lock at h
  cases h with
  | read _ | client _ _ =>
      cases hlock
  | @task d t p o ht hphase hcomplete =>
      cases hcomplete with
      | leaving =>
          cases hlock
          exact .stutter (.free _) (world_finished w d _).symm
      | get | removed _ | dropped =>
          cases hlock

/-! ## Any run -/

/-- An access is one step of the handlers, or none. -/
theorem TakenAs.reaches {l l' : Locked ι} {w : World ι} {a : LockAction ι} (h : TakenAs E l w)
    (hknown : Known E w) (hstep : LockStep E l a l') : ReachesLocked E w l' := by
  rcases h with ⟨o, hlock, rfl⟩
  cases hstep with
  | outside hout hstep =>
      have hfits := hlock.fits hknown
      exact .single (hstep.offset hfits hout) (hlock.frame (hstep.leavesBe hfits hout)) rfl
  | enterJoin hth => exact reaches_enterJoin hlock hknown hth
  | accessJoin => exact reaches_accessJoin hlock
  | leaveJoin hth => exact reaches_leaveJoin hlock hth
  | enterRead hd ht hcall => exact reaches_enterRead hlock hd ht hcall
  | accessRead hsec => exact reaches_accessRead hlock hknown hsec
  | leaveRead hsec => exact reaches_leaveRead hlock hsec
  | enterComplete ht hphase => exact reaches_enterComplete hlock ht hphase
  | accessComplete => exact reaches_accessComplete hlock hknown
  | leaveComplete => exact reaches_leaveComplete hlock

theorem takenAs_of_run {as : List (LockAction ι)} {l : Locked ι}
    (hrun : Run (LockStep E) (.init E) as l) :
    ∃ bs w, Run (WorldStep E) (World.init E) bs w ∧ TakenAs E l w := by
  refine hrun.invariant
    (I := fun l => ∃ bs w, Run (WorldStep E) (World.init E) bs w ∧ TakenAs E l w) ?_
    ⟨[], _, .nil _, .zero, .free _, rfl⟩
  rintro l a l' ⟨bs, w, hw, htaken⟩ hstep
  rcases htaken.reaches (known_of_run hw) hstep with ⟨cs, w', hw', htaken'⟩
  exact ⟨bs ++ cs, w', hw.append hw', htaken'⟩

/-- However the accesses to the registry are interleaved with each other and with all that needs no
lock, there is a run in which every operation of the registry is one step and which leaves every
handler outside the registry, and when the lock is free the whole world, as it is. -/
theorem atomic_of_run {as : List (LockAction ι)} {l : Locked ι}
    (hrun : Run (LockStep E) (.init E) as l) :
    ∃ bs w, Run (WorldStep E) (World.init E) bs w ∧
      (∀ c, (∀ p, l.lock ≠ .written (.client c p)) → w.threads c = l.world.threads c) ∧
      (l.lock = .free → w = l.world) := by
  rcases takenAs_of_run hrun with ⟨bs, w, hw, o, hlock, rfl⟩
  refine ⟨bs, _, hw, ?_, ?_⟩
  · intro c hc
    exact Offset.threads_world (hlock.thread_eq_none hc) _
  · intro hfree
    rw [hfree] at hlock
    rw [hlock.eq_zero_of_free]
    rfl

end Lock

theorem outside_call {l : Locked ι} {c : ι} {op : HandlerOp}
    {next : op.Answer → HandlerProg (Outcome ClientResponse)}
    (hth : l.world.threads c = .running (.call op next)) (hop : ∀ key, op ≠ .joinOrStart key) :
    l.Outside (.call c) := by
  intro key next' heq
  cases hth.symm.trans heq
  exact hop key rfl

/-- The first client subscribes and spawns its task while the second is in the registry, and the
second takes the headers and the first chunk while the task is. -/
theorem exists_run_locked :
    ∃ as, ∃ l : Locked Nat, Run (LockStep exampleEnv) (.init exampleEnv) as l ∧
      l.lock = .free ∧
      ∃ head body, l.world.threads 1 = .streaming 0 head body [[104, 105]] none := by
  have hrun : Run (LockStep exampleEnv) (.init exampleEnv)
      [.outside (.call 0), .enter (.client 0), .access (.client 0), .access (.client 0),
        .leave (.client 0), .outside (.call 1), .enter (.client 1), .access (.client 1),
        .outside (.call 0), .access (.client 1), .outside (.call 0), .access (.client 1),
        .access (.client 1), .outside (.move (.fetch 0)), .leave (.client 1), .enter (.task 0),
        .access (.task 0), .access (.task 0), .outside (.call 1), .leave (.task 0),
        .enter (.task 0), .access (.task 0), .access (.task 0), .outside (.call 1),
        .outside (.reply 1), .access (.task 0), .outside (.poll 1), .leave (.task 0)] _ :=
    .cons (.outside (outside_call (threads_init served_exampleEnv.1) (by simp))
      (.call (threads_init served_exampleEnv.1) ⟨rfl, Or.inl rfl⟩)) <|
    .cons (.enterJoin rfl) <| .cons .accessJoin <| .cons .accessJoin <|
    .cons (.leaveJoin rfl) <|
    .cons (.outside (outside_call (threads_init served_exampleEnv.2) (by simp))
      (.call (threads_init served_exampleEnv.2) ⟨rfl, Or.inl rfl⟩)) <|
    .cons (.enterJoin rfl) <| .cons .accessJoin <|
    .cons (.outside (outside_call rfl (by simp)) (.call rfl ⟨rfl, rfl⟩)) <|
    .cons .accessJoin <|
    .cons (.outside (outside_call rfl (by simp)) (.call (r := ()) rfl rfl)) <|
    .cons .accessJoin <| .cons .accessJoin <|
    .cons (.outside ⟨id, fun _ _ h => h⟩ (.move id (.fetch rfl rfl))) <|
    .cons (.leaveJoin rfl) <|
    .cons (.enterRead rfl rfl (@ReadCall.respond Nat exampleEnv 0 _ ⟨200, []⟩ rfl)) <|
    .cons (.accessRead rfl) <| .cons (.accessRead rfl) <|
    .cons (.outside (outside_call rfl (by simp))
      (.call (r := some (.ok (metaOf ⟨200, []⟩))) rfl ⟨rfl, rfl⟩)) <|
    .cons (.leaveRead rfl) <|
    .cons (.enterRead rfl rfl
      (@ReadCall.chunk Nat exampleEnv 0 _ _ [104, 105] rfl rfl (by decide))) <|
    .cons (.accessRead rfl) <| .cons (.accessRead rfl) <|
    .cons (.outside (outside_call rfl (by simp)) (.call (r := ()) rfl rfl)) <|
    .cons (.outside trivial (.reply rfl)) <|
    .cons (.accessRead rfl) <|
    .cons (.outside trivial (.poll rfl)) <| .cons (.leaveRead rfl) <| .nil _
  refine ⟨_, _, hrun, ?_, _, _, rfl⟩
  -- nobody is in the registry any more
  exact congrArg RwLock.read (by
    funext d
    cases d <;> rfl)

theorem atomic_of_run_join :
    ∃ (l : Locked Nat) (head : Head) (body : StreamingBody),
      l.world.threads 1 = .streaming 0 head body [[104, 105]] none ∧
        ∃ bs w, Run (WorldStep exampleEnv) (World.init exampleEnv) bs w ∧
          (∀ c, (∀ p, l.lock ≠ .written (.client c p)) → w.threads c = l.world.threads c) ∧
          (l.lock = .free → w = l.world) := by
  rcases exists_run_locked with ⟨as, l, hrun, -, head, body, hthread⟩
  exact ⟨l, head, body, hthread, atomic_of_run hrun⟩

end Inflight
end Squiddish
