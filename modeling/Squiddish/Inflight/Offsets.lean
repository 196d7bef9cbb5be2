import Squiddish.Inflight.Locks
import Squiddish.Inflight.Simulation

/-!
# Offsets — what goes on beside an operation of the registry

While an operation of the registry is under way, the state in which it is over already, or has not
begun, is off in a few places from the state as it is.  Nobody outside the registry looks there:

* `Offset` : the places, and `WorldStep.offset` : a step outside is the same on both sides;
* `WorldStep.leavesBe` : such a step leaves alone what the operation rests on;
* `OwnReceivers` : a client that drops its receiver for the headers takes none from another.
-/

namespace Squiddish
namespace Inflight

open Lib Cache Proxy

variable {ι : Type} {E : Env ι}

/-! ## Receivers for the headers -/

/-- The client holds a receiver for the headers of the download. -/
def Client.Listens (client : Client) (d : Nat) : Prop :=
  client.download = some d ∧
    match client.phase with
    | .waiting _ _ | .answered _ _ _ => True
    | _ => False

/-- No two clients hold the same receiver. -/
def OwnReceivers (s : State ι) : Prop :=
  ∀ d (C : Finset ι), (∀ c ∈ C, (s.clients c).Listens d) →
    C.card ≤ (s.states d).metaTx.receivers

namespace OwnReceivers

variable {s s' : State ι}

theorem init : OwnReceivers (State.init : State ι) := by
  intro d C hC
  have hempty : C = ∅ := by
    rw [Finset.eq_empty_iff_forall_notMem]
    intro c hc
    exact (hC c hc).2
  simp [hempty]

theorem of_fewer (h : OwnReceivers s)
    (hlistens : ∀ c d, (s'.clients c).Listens d → (s.clients c).Listens d)
    (hreceivers : ∀ d, (s'.states d).metaTx.receivers = (s.states d).metaTx.receivers) :
    OwnReceivers s' := by
  intro d C hC
  rw [hreceivers]
  exact h d C (fun c hc => hlistens c d (hC c hc))

theorem modifyState (h : OwnReceivers s) (d : Nat) {f : DownloadState → DownloadState}
    (hf : ∀ st, (f st).metaTx.receivers = st.metaTx.receivers) :
    OwnReceivers (s.modifyState d f) := by
  refine h.of_fewer (fun _ _ hc => hc) ?_
  intro d'
  by_cases hd : d' = d
  · subst hd
    simp [hf]
  · simp [hd]

theorem withDownload (h : OwnReceivers s) (key : CacheKey) {f : DownloadState → DownloadState}
    (hf : ∀ st, (f st).metaTx.receivers = st.metaTx.receivers) :
    OwnReceivers (s.withDownload key f) := by
  cases hd : s.downloads key.hashHex with
  | none =>
      exact h.of_fewer (fun _ _ hc => hc) (by simp [State.withDownload, hd])
  | some d =>
      have hmodify := h.modifyState d hf
      simpa [State.withDownload, State.modifyState, hd] using hmodify

theorem setTask (h : OwnReceivers s) (d : Nat) (t : Task ι) : OwnReceivers (s.setTask d t) :=
  h.of_fewer (fun _ _ hc => hc) (fun _ => rfl)

variable [DecidableEq ι]

/-- A client with a new phase has the receiver it had, or none. -/
theorem setPhase (h : OwnReceivers s) (c : ι) {phase : ClientPhase}
    (hphase : ∀ d, Client.Listens { s.clients c with phase := phase } d →
      (s.clients c).Listens d) : OwnReceivers (s.setPhase c phase) := by
  refine h.of_fewer ?_ (fun _ => rfl)
  intro c' d hc'
  by_cases hc : c' = c
  · subst hc
    exact hphase d (by simpa [State.setPhase] using hc')
  · simpa [State.setPhase, hc] using hc'

theorem dropMeta (h : OwnReceivers s) {c : ι} {d : Nat} (hc : (s.clients c).Listens d)
    {phase : ClientPhase} (hphase : ∀ d, ¬ Client.Listens { s.clients c with phase := phase } d) :
    OwnReceivers ((s.modifyState d DownloadState.dropMeta).setPhase c phase) := by
  intro d' C hC
  have hnot : c ∉ C := by
    intro hmem
    exact hphase d' (by simpa [State.setPhase] using hC c hmem)
  have hothers : ∀ c' ∈ C, (s.clients c').Listens d' := by
    intro c' hmem
    have hne : c' ≠ c := by
      intro heq
      exact hnot (heq ▸ hmem)
    simpa [State.setPhase, hne] using hC c' hmem
  by_cases hd : d' = d
  · subst hd
    -- the one who goes had a receiver beside those of the others
    have hall := h d' (insert c C) (by simpa [hc] using hothers)
    rw [Finset.card_insert_of_notMem hnot] at hall
    have hle : C.card ≤ (s.states d').metaTx.receivers - 1 := Nat.le_sub_of_add_le hall
    simpa [State.setPhase, DownloadState.dropMeta, Watch.dropReceiver] using hle
  · simpa [State.setPhase, hd] using h d' C hothers

theorem joinOrStartDownload (h : OwnReceivers s) (hreg : Registered s) (c : ι) :
    OwnReceivers (s.joinOrStartDownload E c) := by
  intro d' C hC
  cases hd : s.downloads (E.key c).hashHex with
  | some d =>
      have hothers : ∀ c' ∈ C.erase c, (s.clients c').Listens d' := by
        intro c' hmem
        have hne := Finset.ne_of_mem_erase hmem
        simpa [State.joinOrStartDownload, hd, hne] using hC c' (Finset.mem_of_mem_erase hmem)
      have hle := h d' (C.erase c) hothers
      by_cases hmem : c ∈ C
      · have heq : d' = d := by
          have hown := (hC c hmem).1
          simpa [State.joinOrStartDownload, hd, eq_comm] using hown
        subst heq
        rw [Finset.card_erase_of_mem hmem] at hle
        have hsucc : C.card ≤ (s.states d').metaTx.receivers + 1 := Nat.le_add_of_sub_le hle
        simpa [State.joinOrStartDownload, hd, DownloadState.subscribeMeta, Watch.subscribe]
          using hsucc
      · rw [Finset.erase_eq_of_notMem hmem] at hle
        by_cases heq : d' = d
        · subst heq
          have hsucc := Nat.le_succ_of_le hle
          simpa [State.joinOrStartDownload, hd, DownloadState.subscribeMeta, Watch.subscribe]
            using hsucc
        · simpa [State.joinOrStartDownload, hd, heq] using hle
  | none =>
      by_cases heq : d' = s.next
      · subst heq
        -- nobody else has come to the new download
        have honly : C ⊆ {c} := by
          intro c' hmem
          by_contra hne
          have hne' : c' ≠ c := by
            simpa using hne
          have hown := (hC c' hmem).1
          have hdownload : (s.clients c').download = some s.next := by
            simpa [State.joinOrStartDownload, hd, hne'] using hown
          rcases hreg.attached c' _ hdownload with ⟨t, ht⟩
          simp [hreg.fresh _ (Nat.le_refl _)] at ht
        have hle : C.card ≤ 1 := by
          simpa using Finset.card_le_card honly
        simpa [State.joinOrStartDownload, hd, DownloadState.new, Watch.channel] using hle
      · have hothers : ∀ c' ∈ C, (s.clients c').Listens d' := by
          intro c' hmem
          have hne : c' ≠ c := by
            intro hcc
            subst hcc
            have hown := (hC c' hmem).1
            exact heq (by simpa [State.joinOrStartDownload, hd, eq_comm] using hown)
          simpa [State.joinOrStartDownload, hd, hne] using hC c' hmem
        simpa [State.joinOrStartDownload, hd, heq] using h d' C hothers

theorem step {a : Action ι} (h : OwnReceivers s) (hreg : Registered s) (hstep : Step E s a s') :
    OwnReceivers s' := by
  have hpublish : ∀ (r : ResponseMetaResult) (st : DownloadState),
      (st.publish r).metaTx.receivers = st.metaTx.receivers :=
    fun r st => Watch.receivers_send st.metaTx (some r)
  cases hstep with
  | lookupHit _ _ | lookupMiss _ _ | lookupFailed _ _ | disconnect _ _ =>
      exact h.setPhase _ (fun _ hlistens => hlistens.2.elim)
  | joinOrStart _ =>
      exact h.joinOrStartDownload hreg _
  | awaitMeta hphase _ _ =>
      exact h.setPhase _ (fun _ hlistens => ⟨hlistens.1, by simp [hphase]⟩)
  | awaitError hphase hd _ | awaitClosed hphase hd _ _ | build hphase hd
  | disconnectWaiting hphase hd | disconnectAnswered hphase hd =>
      exact h.dropMeta ⟨hd, by simp [hphase]⟩ (fun _ hlistens => hlistens.2)
  | @poll c d m body hphase hd =>
      refine h.of_fewer ?_ (fun _ => rfl)
      intro c' d' hc'
      by_cases hc : c' = c
      · subst hc
        simp [Client.Listens] at hc'
      · simpa [hc] using hc'
  | fetch _ _ | oversized _ _ _ | bodyEnd _ _ | storeFailed _ _ | fail _ _ | panic _ _ =>
      exact h.setTask _ _
  | respond _ _ | publishError _ _ _ =>
      exact (h.withDownload _ (hpublish _)).setTask _ _
  | chunk _ _ _ _ =>
      refine (h.withDownload _ ?_).setTask _ _
      exact fun _ => rfl
  | store _ _ _ =>
      exact h.of_fewer (fun _ _ hc => hc) (fun _ => rfl)
  | sendError _ _ _ | sendComplete _ _ | endTask _ _ =>
      refine (h.modifyState _ ?_).setTask _ _
      exact fun _ => rfl
  | @completeDownload d t _ _ =>
      have hdropped := h.withDownload t.key (f := DownloadState.unregister) (fun _ => rfl)
      have hcompleted : OwnReceivers (s.completeDownload t.key) :=
        hdropped.of_fewer (fun _ _ hc => hc) (fun _ => rfl)
      exact hcompleted.setTask _ _
  | evict | restore _ _ =>
      exact h.of_fewer (fun _ _ hc => hc) (fun _ => rfl)

end OwnReceivers

/-! ## Two states -/

attribute [ext] Shared World

structure Offset (ι : Type) where
  /-- An entry that is still in the registry. -/
  entry : Option (Str × Nat)
  state : Nat → DownloadState → DownloadState
  task : Nat → Option (Task ι)
  thread : ι → Option Thread

namespace Offset

def zero : Offset ι :=
  { entry := none, state := fun _ => id, task := fun _ => none, thread := fun _ => none }

def downloads (o : Offset ι) (entries : Str → Option Nat) : Str → Option Nat :=
  match o.entry with
  | some (hash, d) => Function.update entries hash (some d)
  | none => entries

def shared (o : Offset ι) (sh : Shared ι) : Shared ι :=
  { sh with
    downloads := o.downloads sh.downloads
    states := fun d => o.state d (sh.states d)
    tasks := fun d => (o.task d).or (sh.tasks d) }

def world (o : Offset ι) (w : World ι) : World ι :=
  { shared := o.shared w.shared, threads := fun c => (o.thread c).getD (w.threads c) }

theorem tasks_shared {o : Offset ι} {d : Nat} (h : o.task d = none) (sh : Shared ι) :
    (o.shared sh).tasks d = sh.tasks d := by
  simp [shared, h]

theorem threads_world {o : Offset ι} {c : ι} (h : o.thread c = none) (w : World ι) :
    (o.world w).threads c = w.threads c := by
  simp [world, h]

theorem shared_modifyState {o : Offset ι} {sh : Shared ι} {d : Nat}
    {f : DownloadState → DownloadState}
    (hf : o.state d (f (sh.states d)) = f (o.state d (sh.states d))) :
    o.shared (sh.modifyState d f) = (o.shared sh).modifyState d f := by
  ext d' : 2
  case states =>
    by_cases hd : d' = d
    · subst hd
      simpa [shared, Shared.modifyState] using hf
    · simp [shared, Shared.modifyState, hd]
  all_goals rfl

theorem shared_spawn {o : Offset ι} {d : Nat} (h : o.task d = none) (sh : Shared ι) (t : Task ι) :
    o.shared (sh.spawn d t) = (o.shared sh).spawn d t := by
  ext d' : 2
  case tasks =>
    by_cases hd : d' = d
    · subst hd
      simp [shared, Shared.spawn, h]
    · simp [shared, Shared.spawn, hd]
  all_goals rfl

variable [DecidableEq ι]

theorem world_setThread {o : Offset ι} {c : ι} (h : o.thread c = none) (w : World ι)
    (th : Thread) : o.world (w.setThread c th) = (o.world w).setThread c th := by
  ext c' : 2
  case threads =>
    by_cases hc : c' = c
    · subst hc
      simp [world, h]
    · simp [world, hc]
  all_goals rfl

end Offset

/-- Nobody outside the registry can tell the state from what it is changed to. -/
structure Unseen (f : DownloadState → DownloadState) : Prop where
  sender : ∀ st, (f st).sender = st.sender
  value : ∀ st, (f st).metaTx.value = st.metaTx.value
  closed : ∀ st, st.metaTx.senderAlive = false → (f st).metaTx.senderAlive = false
  withSender : ∀ st b, f { st with sender := b } = { f st with sender := b }
  dropMeta : ∀ st, 0 < st.metaTx.receivers → f st.dropMeta = (f st).dropMeta

/-- The last chunk has been pushed, and not been sent yet. -/
def DownloadState.unpush (st : DownloadState) : DownloadState :=
  { st with accumulated := st.accumulated.dropLast }

namespace Unseen

theorem id : Unseen id :=
  ⟨fun _ => rfl, fun _ => rfl, fun _ h => h, fun _ _ => rfl, fun _ _ => rfl⟩

theorem unpush : Unseen DownloadState.unpush :=
  ⟨fun _ => rfl, fun _ => rfl, fun _ h => h, fun _ _ => rfl, fun _ _ => rfl⟩

theorem dropMetaTx : Unseen DownloadState.dropMetaTx :=
  ⟨fun _ => rfl, fun _ => rfl, fun _ _ => rfl, fun _ _ => rfl, fun _ _ => rfl⟩

theorem subscribeMeta : Unseen DownloadState.subscribeMeta where
  sender := fun _ => rfl
  value := fun _ => rfl
  closed := fun _ h => h
  withSender := fun _ _ => rfl
  dropMeta := by
    intro st hpos
    have hcount : st.metaTx.receivers - 1 + 1 = st.metaTx.receivers + 1 - 1 := by
      omega
    simp [DownloadState.subscribeMeta, DownloadState.dropMeta, Watch.subscribe,
      Watch.dropReceiver, hcount]

variable {f : DownloadState → DownloadState}

theorem waitFor_ready (h : Unseen f) {st : DownloadState} {r : Option ResponseMetaResult}
    (hwait : st.metaTx.waitFor Option.isSome = .ready r) :
    (f st).metaTx.waitFor Option.isSome = .ready r := by
  rcases Watch.waitFor_eq_ready hwait with ⟨hvalue, hsome⟩
  simp [Watch.waitFor, h.value, hvalue, hsome]

theorem waitFor_closed (h : Unseen f) {st : DownloadState}
    (hwait : st.metaTx.waitFor Option.isSome = .closed) :
    (f st).metaTx.waitFor Option.isSome = .closed := by
  rcases Watch.waitFor_eq_closed hwait with ⟨hvalue, hgone⟩
  simp [Watch.waitFor, h.value, hvalue, h.closed st hgone]

end Unseen

/-! ### Steps outside the registry -/

/-- An operation of a handler outside the registry is the same on both sides. -/
theorem Performs.offset {c : ι} {op : HandlerOp} {sh sh' : Shared ι} {r : op.Answer}
    {o : Offset ι} (h : Performs c op sh r sh') (hunseen : ∀ d, Unseen (o.state d))
    (hjoin : ∀ key, op ≠ .joinOrStart key)
    (hspawn : ∀ d key req, op = .spawnDownload d key req → o.task d = none)
    (hdrop : ∀ d, op = .dropMeta d → 0 < (sh.states d).metaTx.receivers) :
    Performs c op (o.shared sh) r (o.shared sh') := by
  cases op with
  | cacheGet key =>
      exact ⟨congrArg o.shared h.1, h.2⟩
  | joinOrStart key =>
      exact absurd rfl (hjoin key)
  | subscribe d =>
      refine ⟨congrArg o.shared h.1, h.2.trans ?_⟩
      simp [Offset.shared, (hunseen d).sender]
  | spawnDownload d key req =>
      have heq : sh' = sh.spawn d (Task.new key c req) := h
      rw [heq, Offset.shared_spawn (hspawn d key req rfl)]
      rfl
  | waitMeta d =>
      refine ⟨congrArg o.shared h.1, ?_⟩
      cases r with
      | none => exact (hunseen d).waitFor_closed h.2
      | some result => exact (hunseen d).waitFor_ready h.2
  | dropMeta d =>
      have heq : sh' = sh.modifyState d DownloadState.dropMeta := h
      rw [heq, Offset.shared_modifyState ((hunseen d).dropMeta _ (hdrop d rfl))]
      rfl
  | _ =>
      exact congrArg o.shared h

/-- What the operations of the registry rest on stays, apart from the tasks in `moved`. -/
structure SameBase (sh sh' : Shared ι) (moved : Nat → Prop) : Prop where
  downloads : sh'.downloads = sh.downloads
  accumulated : ∀ d, (sh'.states d).accumulated = (sh.states d).accumulated
  tasks : ∀ d, ¬ moved d → sh'.tasks d = sh.tasks d

namespace SameBase

variable {sh : Shared ι} {moved : Nat → Prop}

theorem refl (sh : Shared ι) (moved : Nat → Prop) : SameBase sh sh moved :=
  ⟨rfl, fun _ => rfl, fun _ _ => rfl⟩

theorem modifyState (d : Nat) {f : DownloadState → DownloadState}
    (hf : ∀ st, (f st).accumulated = st.accumulated) :
    SameBase sh (sh.modifyState d f) moved where
  downloads := rfl
  accumulated := by
    intro d'
    by_cases hd : d' = d
    · subst hd
      simp [Shared.modifyState, hf]
    · simp [Shared.modifyState, hd]
  tasks := fun _ _ => rfl

theorem spawn {sh' : Shared ι} (h : SameBase sh sh' moved) {d : Nat} (hd : moved d)
    (t : Task ι) : SameBase sh (sh'.spawn d t) moved where
  downloads := h.downloads
  accumulated := h.accumulated
  tasks := by
    intro d' hnot
    have hne : d' ≠ d := by
      intro heq
      exact hnot (heq ▸ hd)
    simpa [Shared.spawn, hne] using h.tasks d' hnot

theorem setTask {s : State ι} (h : SameBase sh s.shared moved) {d : Nat} (hd : moved d)
    (t : Task ι) : SameBase sh (s.setTask d t).shared moved :=
  h.spawn hd t

theorem weaken {sh' : Shared ι} {moved' : Nat → Prop}
    (h : SameBase sh sh' moved) (hle : ∀ d, moved d → moved' d) : SameBase sh sh' moved' :=
  ⟨h.downloads, h.accumulated, fun d hd => h.tasks d (fun hmoved => hd (hle d hmoved))⟩

end SameBase

theorem Performs.sameBase {c : ι} {op : HandlerOp} {sh sh' : Shared ι} {r : op.Answer}
    (h : Performs c op sh r sh') (hjoin : ∀ key, op ≠ .joinOrStart key) :
    SameBase sh sh' (fun d => ∃ key req, op = .spawnDownload d key req) := by
  cases op with
  | joinOrStart key =>
      exact absurd rfl (hjoin key)
  | spawnDownload d key req =>
      have heq : sh' = sh.spawn d (Task.new key c req) := h
      rw [heq]
      exact (SameBase.refl sh _).spawn ⟨key, req, rfl⟩ _
  | dropMeta d =>
      have heq : sh' = sh.modifyState d DownloadState.dropMeta := h
      rw [heq]
      exact .modifyState d (fun _ => rfl)
  | cacheGet key | subscribe d | waitMeta d =>
      rw [h.1]
      exact .refl sh _
  | _ =>
      have heq : sh' = sh := h
      rw [heq]
      exact .refl sh _

section Steps

variable [DecidableEq ι]

/-- A task outside the registry, or the cache, moves on both sides alike. -/
theorem Step.offset {sh : Shared ι} {a : Action ι} {s' : State ι} {o : Offset ι}
    (hstep : Step E sh.toState a s') (hunseen : ∀ d, Unseen (o.state d))
    (hclient : ¬ a.OfClient) (hregistry : ¬ a.UsesRegistry)
    (htask : ∀ d, a.task = some d → o.task d = none) :
    ∃ s₁, Step E (o.shared sh).toState a s₁ ∧ s₁.shared = o.shared s'.shared := by
  have hset : ∀ {d : Nat} (t : Task ι) (sh : Shared ι), o.task d = none →
      ((o.shared sh).toState.setTask d t).shared = o.shared (sh.toState.setTask d t).shared :=
    fun t sh hd => (Offset.shared_spawn hd sh t).symm
  -- a task reports and drops its sender on its own handle
  have hmodify : ∀ {d : Nat} {f : DownloadState → DownloadState} (t : Task ι),
      o.task d = none → (∀ st, f st = { st with sender := (f st).sender }) →
      (∀ st st', st.sender = st'.sender → (f st).sender = (f st').sender) →
      (((o.shared sh).toState.modifyState d f).setTask d t).shared =
        o.shared ((sh.toState.modifyState d f).setTask d t).shared := by
    intro d f t hd hf hsender
    have hcommutes : o.state d (f (sh.states d)) = f (o.state d (sh.states d)) := by
      rw [hf (sh.states d), (hunseen d).withSender, hf (o.state d (sh.states d)),
        hsender _ _ ((hunseen d).sender (sh.states d))]
    have hboth := Offset.shared_modifyState hcommutes
    have hspawn := Offset.shared_spawn hd (sh.modifyState d f) t
    rw [hboth] at hspawn
    exact hspawn.symm
  cases hstep with
  | lookupHit _ _ | lookupMiss _ _ | lookupFailed _ _ | joinOrStart _ | awaitMeta _ _ _
  | awaitError _ _ _ | awaitClosed _ _ _ _ | build _ _ | poll _ _ | disconnectWaiting _ _
  | disconnectAnswered _ _ | disconnect _ _ =>
      exact absurd trivial hclient
  | respond _ _ | chunk _ _ _ _ | publishError _ _ _ | completeDownload _ _ =>
      exact absurd trivial hregistry
  | fetch ht hphase =>
      have hd := htask _ rfl
      exact ⟨_, .fetch ((Offset.tasks_shared hd sh).trans ht) hphase, hset _ sh hd⟩
  | oversized ht hphase hsize =>
      have hd := htask _ rfl
      exact ⟨_, .oversized ((Offset.tasks_shared hd sh).trans ht) hphase hsize, hset _ sh hd⟩
  | bodyEnd ht hphase =>
      have hd := htask _ rfl
      exact ⟨_, .bodyEnd ((Offset.tasks_shared hd sh).trans ht) hphase, hset _ sh hd⟩
  | @store d t now hlen ht hphase =>
      have hd := htask _ rfl
      exact ⟨_, .store hlen ((Offset.tasks_shared hd sh).trans ht) hphase,
        hset _ (sh.toState.store E t now hlen).shared hd⟩
  | storeFailed ht hphase =>
      have hd := htask _ rfl
      exact ⟨_, .storeFailed ((Offset.tasks_shared hd sh).trans ht) hphase, hset _ sh hd⟩
  | fail ht hphase =>
      have hd := htask _ rfl
      exact ⟨_, .fail ((Offset.tasks_shared hd sh).trans ht) hphase, hset _ sh hd⟩
  | panic ht hphase =>
      have hd := htask _ rfl
      exact ⟨_, .panic ((Offset.tasks_shared hd sh).trans ht) hphase, hset _ sh hd⟩
  | sendError ht hphase hfailure =>
      have hd := htask _ rfl
      refine ⟨_, .sendError ((Offset.tasks_shared hd sh).trans ht) hphase hfailure,
        hmodify _ hd (fun _ => rfl) ?_⟩
      intro st st' heq
      simp [DownloadState.report, heq]
  | sendComplete ht hphase =>
      have hd := htask _ rfl
      refine ⟨_, .sendComplete ((Offset.tasks_shared hd sh).trans ht) hphase,
        hmodify _ hd (fun _ => rfl) ?_⟩
      intro st st' heq
      simp [DownloadState.report, heq]
  | endTask ht hphase =>
      have hd := htask _ rfl
      refine ⟨_, .endTask ((Offset.tasks_shared hd sh).trans ht) hphase,
        hmodify _ hd (fun _ => rfl) ?_⟩
      intro st st' heq
      simp [DownloadState.dropTask, heq]
  | evict =>
      exact ⟨_, .evict, rfl⟩
  | restore hwritten hhash =>
      exact ⟨_, .restore hwritten hhash, rfl⟩

/-- What an offset may not touch: the threads and tasks outside the registry, and downloads that
are about to be spawned.  Whoever drops a receiver has one. -/
structure Offset.Fits (o : Offset ι) (l : Locked ι) : Prop where
  unseen : ∀ d, Unseen (o.state d)
  task : ∀ d, ¬ l.lock.Holds d → o.task d = none
  thread : ∀ c, (∀ key next, l.world.threads c ≠ .running (.call (.joinOrStart key) next)) →
    o.thread c = none
  spawning : ∀ c d, (l.world.threads c).Starting d → ¬ l.lock.Holds d
  receiver : ∀ c d p, l.world.threads c = .running p →
    p.pending = some (.waitMeta d) ∨ p.pending = some (.dropMeta d) →
      0 < (l.world.shared.states d).metaTx.receivers

/-- A step outside the registry is the same on both sides. -/
theorem WorldStep.offset {l : Locked ι} {o : Offset ι} {a : WorldAction ι} {w' : World ι}
    (hstep : WorldStep E l.world a w') (hfits : o.Fits l) (hout : l.Outside a) :
    WorldStep E (o.world l.world) a (o.world w') := by
  have hthread : ∀ {c : ι} {th : Thread}, l.world.threads c = th →
      (∀ key next, th ≠ .running (.call (.joinOrStart key) next)) →
      o.thread c = none ∧ (o.world l.world).threads c = th := by
    intro c th hth hnot
    have hnone := hfits.thread c (hth ▸ hnot)
    exact ⟨hnone, (Offset.threads_world hnone _).trans hth⟩
  cases hstep with
  | @call c op next r sh' hth hperforms =>
      have hnot : ∀ key, op ≠ .joinOrStart key := by
        intro key hop
        subst hop
        exact hout key next hth
      rcases hthread hth (by
        intro key next' heq
        cases heq
        exact hnot key rfl) with ⟨hnone, hth'⟩
      rw [Offset.world_setThread hnone]
      refine .call hth' (hperforms.offset hfits.unseen hnot ?_ ?_)
      · intro d key req hop
        subst hop
        exact hfits.task d (hfits.spawning c d ⟨_, hth, Or.inr ⟨key, req, rfl⟩⟩)
      · intro d hop
        subst hop
        exact hfits.receiver c d _ hth (Or.inr rfl)
  | reply hth =>
      rcases hthread hth (by simp) with ⟨hnone, hth'⟩
      rw [Offset.world_setThread hnone]
      exact .reply hth'
  | @poll c d head body received ending hth =>
      rcases hthread hth (by simp) with ⟨hnone, hth'⟩
      rw [Offset.world_setThread hnone, ← (hfits.unseen d).sender]
      exact .poll hth'
  | @closeWaiting c d next hth =>
      rcases hthread hth (by simp) with ⟨hnone, hth'⟩
      have hpos := hfits.receiver c d _ hth (Or.inl rfl)
      have hdrop := Offset.shared_modifyState ((hfits.unseen d).dropMeta _ hpos)
      have hclose := WorldStep.closeWaiting (E := E) hth'
      rw [Offset.world_setThread hnone]
      simpa only [Offset.world, hdrop] using hclose
  | closeSuspended hth hop =>
      rcases hthread hth (by
        intro key next' heq
        cases heq
        exact hop) with ⟨hnone, hth'⟩
      rw [Offset.world_setThread hnone]
      exact .closeSuspended hth' hop
  | closeStreaming hth =>
      rcases hthread hth (by simp) with ⟨hnone, hth'⟩
      rw [Offset.world_setThread hnone]
      exact .closeStreaming hth'
  | move hclient hstep =>
      rcases hstep.offset hfits.unseen hclient hout.1
        (fun d hd => hfits.task d (hout.2 d hd)) with ⟨s₁, hstep₁, heq⟩
      have hmove := WorldStep.move (w := o.world l.world) hclient hstep₁
      rw [heq] at hmove
      exact hmove

theorem Step.sameBase {sh : Shared ι} {a : Action ι} {s' : State ι}
    (hstep : Step E sh.toState a s') (hclient : ¬ a.OfClient) (hregistry : ¬ a.UsesRegistry) :
    SameBase sh s'.shared (fun d => a.task = some d) := by
  have hmodify : ∀ {d : Nat} (t : Task ι) (f : DownloadState → DownloadState),
      a.task = some d → (∀ st, (f st).accumulated = st.accumulated) →
      SameBase sh ((sh.toState.modifyState d f).setTask d t).shared
        (fun d => a.task = some d) := by
    intro d t f hd hf
    exact (SameBase.modifyState d hf).spawn hd t
  cases hstep with
  | lookupHit _ _ | lookupMiss _ _ | lookupFailed _ _ | joinOrStart _ | awaitMeta _ _ _
  | awaitError _ _ _ | awaitClosed _ _ _ _ | build _ _ | poll _ _ | disconnectWaiting _ _
  | disconnectAnswered _ _ | disconnect _ _ =>
      exact absurd trivial hclient
  | respond _ _ | chunk _ _ _ _ | publishError _ _ _ | completeDownload _ _ =>
      exact absurd trivial hregistry
  | fetch _ _ | oversized _ _ _ | bodyEnd _ _ | storeFailed _ _ | fail _ _ | panic _ _ =>
      refine SameBase.setTask ?_ ?_ _
      · exact .refl sh _
      · rfl
  | @store d t now hlen _ _ =>
      have hstored : SameBase sh (sh.toState.store E t now hlen).shared
          (fun d' => Action.task (ι := ι) (.store d now) = some d') :=
        ⟨rfl, fun _ => rfl, fun _ _ => rfl⟩
      exact hstored.setTask rfl _
  | sendError _ _ _ =>
      exact hmodify _ (fun st => st.report _) rfl (fun _ => rfl)
  | sendComplete _ _ =>
      exact hmodify _ (fun st => st.report _) rfl (fun _ => rfl)
  | endTask _ _ =>
      exact hmodify _ DownloadState.dropTask rfl (fun _ => rfl)
  | evict | restore _ _ =>
      exact ⟨rfl, fun _ => rfl, fun _ _ => rfl⟩

/-- A step outside the registry leaves alone what those who hold the lock rest on. -/
structure LeavesBe (l : Locked ι) (w' : World ι) : Prop where
  base : SameBase l.world.shared w'.shared (fun d => ¬ l.lock.Holds d)
  threads : ∀ c key next, l.world.threads c = .running (.call (.joinOrStart key) next) →
    w'.threads c = l.world.threads c

theorem leavesBe_setThread {l : Locked ι} {sh' : Shared ι} {c : ι} {th : Thread}
    (hbase : SameBase l.world.shared sh' (fun d => ¬ l.lock.Holds d))
    (hnot : ∀ key next, l.world.threads c ≠ .running (.call (.joinOrStart key) next)) :
    LeavesBe l (({ l.world with shared := sh' } : World ι).setThread c th) where
  base := hbase
  threads := by
    intro c' key next hth
    have hc : c' ≠ c := by
      intro heq
      exact hnot key next (heq ▸ hth)
    simp [hc]

theorem WorldStep.leavesBe {l : Locked ι} {o : Offset ι} {a : WorldAction ι} {w' : World ι}
    (hstep : WorldStep E l.world a w') (hfits : o.Fits l) (hout : l.Outside a) :
    LeavesBe l w' := by
  cases hstep with
  | @call c op next r sh' hth hperforms =>
      have hnot : ∀ key, op ≠ .joinOrStart key := by
        intro key hop
        subst hop
        exact hout key next hth
      refine leavesBe_setThread ((hperforms.sameBase hnot).weaken ?_) hout
      rintro d ⟨key, req, rfl⟩
      exact hfits.spawning c d ⟨_, hth, Or.inr ⟨key, req, rfl⟩⟩
  | reply hth | poll hth | closeStreaming hth =>
      exact leavesBe_setThread (.refl _ _) (by simp [hth])
  | @closeWaiting c d next hth =>
      refine leavesBe_setThread (.modifyState d (fun _ => rfl)) ?_
      intro key next' heq
      cases hth.symm.trans heq
  | closeSuspended hth hop =>
      refine leavesBe_setThread (.refl _ _) ?_
      intro key next' heq
      cases hth.symm.trans heq
      exact hop
  | move hclient hstep =>
      refine ⟨(hstep.sameBase hclient hout.1).weaken ?_, fun _ _ _ _ => rfl⟩
      intro d hd
      exact hout.2 d hd

end Steps

end Inflight
end Squiddish
