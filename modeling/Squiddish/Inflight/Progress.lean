import Mathlib.Algebra.BigOperators.Group.Finset.Basic
import Mathlib.Algebra.Order.BigOperators.Group.Finset
import Squiddish.Inflight.Delivery
import Squiddish.Lib.Progress

/-!
# Progress — every request comes to an end

Requests wait for tasks, tasks wait for upstream, and what a client reads is sent by somebody else.
This file shows that none of this goes in circles.  With `C` the clients that have come or may still
come, the work left in a state is the sum of

* what each task has to do, and the bytes upstream may send before `max_body_size` is exceeded;
* what each client has to do, and the chunks it has not been given;

and every step lowers it (`work_lt`), apart from polls that give nothing, empty chunks and the
comings and goings of the cache.  Until all is done some step is possible (`exists_step`).
-/

namespace Squiddish
namespace Inflight

open Lib Cache

variable {ι : Type} {E : Env ι} {C : Finset ι} {s s' : State ι}

/-! ## The work left -/

/-- The steps to the end of the task when upstream sends no more chunks. -/
def TaskPhase.left : TaskPhase → Nat
  | .ended => 0
  | .released => 1
  | .completeSent | .errorSent | .panicked => 2
  | .succeeded | .errorPublished => 3
  | .received | .failed => 4
  | .streaming => 5
  | .requested => 6
  | .spawned => 7

/-- Unwinding is short. -/
theorem TaskPhase.Running.left {phase : TaskPhase} (h : phase.Running) :
    TaskPhase.panicked.left < phase.left := by
  rcases h with ⟨hcomplete, herror, hpanicked, hreleased, hended⟩
  cases phase with
  | completeSent => exact absurd rfl hcomplete
  | errorSent => exact absurd rfl herror
  | panicked => exact absurd rfl hpanicked
  | released => exact absurd rfl hreleased
  | ended => exact absurd rfl hended
  | _ => decide

/-- The work of a task, where a byte of the body may cost `width` steps. -/
def Task.work (E : Env ι) (width : Nat) (t : Task ι) : Nat :=
  t.phase.left + width * (E.config.security.maxBodySize - t.totalSize)

/-- The chunks of all downloads. -/
def State.chunks (s : State ι) : Nat :=
  ∑ d ∈ Finset.range s.next, (s.states d).accumulated.length

/-- The chunks of its download that a client has not been given. -/
def State.backlog (s : State ι) (client : Client) : Nat :=
  match client.download with
  | some d => (s.states d).accumulated.length - client.received.length
  | none => 0

/-- The work of a client.  One that has not joined may start a task, or be given the chunks of any
download. -/
def State.clientWork (s : State ι) (E : Env ι) (width : Nat) (client : Client) : Nat :=
  match client.phase with
  | .arrived => 13 + (s.chunks + width * E.config.security.maxBodySize)
  | .missed => 12 + (s.chunks + width * E.config.security.maxBodySize)
  | .waiting _ _ => 4 + s.backlog client
  | .answered _ _ _ => 3 + s.backlog client
  | .streaming _ body => (if body.finished then 1 else 2) + s.backlog client
  | .hit _ | .refused _ => 1 + s.backlog client
  | .gone => s.backlog client

def State.taskWork (s : State ι) (E : Env ι) (width d : Nat) : Nat :=
  match s.tasks d with
  | some t => t.work E width
  | none => 0

/-- A chunk is one step, and one more to come for each client. -/
def width (C : Finset ι) : Nat :=
  C.card + 1

def State.work (s : State ι) (E : Env ι) (C : Finset ι) : Nat :=
  ∑ d ∈ Finset.range s.next, s.taskWork E (width C) d +
    ∑ c ∈ C, s.clientWork E (width C) (s.clients c)

/-! ### States that differ little -/

/-- The two states have the same downloads, and each as many chunks. -/
structure SameChunks (s s' : State ι) : Prop where
  next : s'.next = s.next
  accumulated : ∀ d, (s'.states d).accumulated = (s.states d).accumulated

theorem SameChunks.clientWork (h : SameChunks s s') (width : Nat) (client : Client) :
    s'.clientWork E width client = s.clientWork E width client := by
  have hchunks : s'.chunks = s.chunks := by
    rw [State.chunks, State.chunks, h.next]
    exact Finset.sum_congr rfl (fun d _ => congrArg List.length (h.accumulated d))
  have hbacklog : s'.backlog client = s.backlog client := by
    cases hd : client.download with
    | none =>
        simp [State.backlog, hd]
    | some d =>
        simp [State.backlog, hd, h.accumulated d]
  simp [State.clientWork, hchunks, hbacklog]

section Chunk

variable {d : Nat} {t : Task ι} {resp : Response} {bytes : Bytes}

variable (t resp bytes)

variable {t resp bytes}

end Chunk

/-- A failed task knows its error, and the sender of the headers is dropped with the guard. -/
structure Equipped (t : Task ι) (st : DownloadState) : Prop where
  failure : t.phase = .failed ∨ t.phase = .errorPublished → ∃ e, t.failure = some e
  metaTx : ¬ t.phase.Live → st.metaTx.senderAlive = false

namespace Equipped

variable {t t' : Task ι} {st st' : DownloadState}

theorem of_live (hfailure : t'.phase ≠ .failed ∧ t'.phase ≠ .errorPublished)
    (hlive : t'.phase.Live) : Equipped t' st' where
  failure := by
    rintro (hphase | hphase)
    · exact absurd hphase hfailure.1
    · exact absurd hphase hfailure.2
  metaTx := fun h => absurd hlive h

theorem step {d : Nat} {a : Action ι} (h : Equipped t st)
    (hmove : DownloadStep E d a t st t' st') : Equipped t' st' := by
  cases hmove with
  | receivers n =>
      exact ⟨h.failure, h.metaTx⟩
  | fetch _ | respond _ | bodyEnd _ | store _ | storeFailed _ | sendError _ _ | sendComplete _
  | panic _ =>
      exact .of_live (by simp) (by simp [TaskPhase.Live])
  | chunk hphase _ _ =>
      exact .of_live (by simp [hphase]) (by simp [hphase, TaskPhase.Live])
  | oversized _ | fail _ =>
      exact ⟨fun _ => ⟨_, rfl⟩, by simp [TaskPhase.Live]⟩
  | publishError _ hfailure =>
      exact ⟨fun _ => ⟨_, hfailure⟩, by simp [TaskPhase.Live]⟩
  | completeDownload _ =>
      exact ⟨by simp, fun _ => rfl⟩
  | endTask hphase =>
      exact ⟨by simp, fun _ => h.metaTx (by simp [hphase, TaskPhase.Live])⟩

end Equipped

/-- A client that waits for a download has one. -/
def Client.Attached (client : Client) : Prop :=
  match client.phase with
  | .waiting _ _ | .answered _ _ _ | .streaming _ _ => ∃ d, client.download = some d
  | _ => True

/-- Nobody lacks what the next step needs. -/
structure Provided (s : State ι) : Prop where
  delivering : Delivering s
  equipped : ∀ d t, s.tasks d = some t → Equipped t (s.states d)
  attached : ∀ c, (s.clients c).Attached

theorem attached_settled {client : Client} {phase : ClientPhase} (h : phase.Settled) :
    Client.Attached { client with phase := phase } := by
  cases phase with
  | waiting rx initial | answered rx initial m | streaming m body =>
      exact h.elim
  | _ =>
      trivial

theorem ClientStep.isAttached {a : Action ι} {c : ι} {client' : Client}
    (hclient : ClientStep E s c a client') (h : (s.clients c).Attached) : client'.Attached := by
  cases hclient with
  | unchanged =>
      exact h
  | settled hsettled =>
      exact attached_settled hsettled
  | missed _ _ =>
      trivial
  | joined _ _ | started _ _ =>
      exact ⟨_, rfl⟩
  | answered _ hd _ =>
      exact ⟨_, hd⟩
  | built hphase =>
      simpa [Client.Attached, hphase] using h
  | polled _ hd =>
      simp only [Client.Attached, Client.phase_polled, Client.download_polled]
      exact ⟨_, hd⟩

namespace Provided

theorem init : Provided (State.init : State ι) where
  delivering := .init
  equipped := by simp [State.init]
  attached := fun _ => trivial

variable [DecidableEq ι]

theorem step {a : Action ι} (h : Provided s) (hstep : Step E s a s') : Provided s' where
  delivering := h.delivering.step hstep
  equipped :=
    h.delivering.registered.downloads_step hstep
      (fun _ _ => .of_live (by simp [Task.new]) (by simp [Task.new, TaskPhase.Live]))
      (fun _ _ _ _ hmove hequipped => hequipped.step hmove) h.equipped
  attached := fun c => (hstep.client c).isAttached (h.attached c)

theorem of_run {as : List (Action ι)} (h : Run (Step E) .init as s) : Provided s :=
  h.invariant (fun _ _ _ hprov hstep => hprov.step hstep) .init

end Provided

/-! ## Busy steps -/

/-- The steps that get something done, for the clients of `C`. -/
def Busy (C : Finset ι) (s : State ι) : Action ι → Prop
  | .lookup c => c ∈ C
  | .disconnect c => c ∈ C ∧ (s.clients c).phase ≠ .gone
  | .poll c => ∃ d m body, (s.clients c).phase = .streaming m body ∧
      (s.clients c).download = some d ∧ body.finished = false ∧
      (body.pollFrame (s.states d).sender).1 ≠ .pending
  | .chunk _ bytes => bytes ≠ []
  | .evict _ | .restore _ _ => False
  | _ => True

/-- The clients outside `C` never come. -/
structure Underway (C : Finset ι) (s : State ι) : Prop extends Provided s where
  others : ∀ c, c ∉ C → (s.clients c).phase = .arrived

theorem Underway.mem {c : ι} (h : Underway C s) (hphase : (s.clients c).phase ≠ .arrived) :
    c ∈ C := by
  by_contra hc
  exact hphase (h.others c hc)

variable [DecidableEq ι]

/-- A client that has not come stays away until it looks its key up or closes its connection. -/
theorem Step.stays_arrived {a : Action ι} {c : ι} (hstep : Step E s a s')
    (harrived : (s.clients c).phase = .arrived) (hlookup : a ≠ .lookup c)
    (hdisconnect : a ≠ .disconnect c) : (s'.clients c).phase = .arrived := by
  have hkeep : ∀ c₀ phase (s₁ : State ι), c ≠ c₀ → s₁.clients = s.clients →
      ((s₁.setPhase c₀ phase).clients c).phase = .arrived := by
    intro c₀ phase s₁ hne hclients
    simpa [State.setPhase, hne, hclients] using harrived
  have hne : ∀ c₀, (s.clients c₀).phase ≠ .arrived → c ≠ c₀ := by
    rintro c₀ hphase rfl
    exact hphase harrived
  cases hstep with
  | lookupHit _ _ | lookupMiss _ _ | lookupFailed _ _ =>
      exact hkeep _ _ _ (fun heq => hlookup (heq ▸ rfl)) rfl
  | disconnect _ _ | disconnectWaiting _ _ | disconnectAnswered _ _ =>
      exact hkeep _ _ _ (fun heq => hdisconnect (heq ▸ rfl)) rfl
  | awaitMeta hphase _ _ | awaitError hphase _ _ | awaitClosed hphase _ _ _ | build hphase _ =>
      exact hkeep _ _ _ (hne _ (by simp [hphase])) rfl
  | @joinOrStart c₀ hphase =>
      have hne₀ := hne c₀ (by simp [hphase])
      cases hd : s.downloads (E.key c₀).hashHex with
      | some d | none =>
          simpa [State.joinOrStartDownload, hd, hne₀] using harrived
  | @poll c₀ _ _ _ hphase _ =>
      simpa [hne c₀ (by simp [hphase])] using harrived
  | _ =>
      exact harrived

theorem Underway.step {a : Action ι} (h : Underway C s) (hstep : Step E s a s')
    (hbusy : Busy C s a) : Underway C s' where
  toProvided := h.toProvided.step hstep
  others := by
    intro c hc
    refine hstep.stays_arrived (h.others c hc) ?_ ?_
    · rintro rfl
      exact hc hbusy
    · rintro rfl
      exact hc hbusy.1

theorem Underway.of_run {as : List (Action ι)} (hrun : Run (Step E) .init as s)
    (hC : ∀ c, .lookup c ∈ as ∨ .disconnect c ∈ as → c ∈ C) : Underway C s where
  toProvided := .of_run hrun
  others := by
    intro c hc
    refine hrun.invariant_of_mem (I := fun s => (s.clients c).phase = .arrived) ?_ rfl
    intro s a s' hmem harrived hstep
    refine hstep.stays_arrived harrived ?_ ?_
    · rintro rfl
      exact hc (hC c (Or.inl hmem))
    · rintro rfl
      exact hc (hC c (Or.inr hmem))

/-! ## All is done -/

/-- The request of the client is over. -/
def Client.Over (client : Client) : Prop :=
  match client.phase with
  | .hit _ | .refused _ | .gone => True
  | .streaming _ _ => client.ending ≠ none
  | _ => False

/-- Every client of `C` has come and has got its answer, an error or lost its connection, and
nothing is left of the downloads: no task, no entry in the registry, no sender. -/
structure Settled (C : Finset ι) (s : State ι) : Prop where
  clients : ∀ c, c ∈ C → (s.clients c).Over
  tasks : ∀ d t, s.tasks d = some t → t.phase = .ended
  downloads : ∀ hash, s.downloads hash = none
  senders : ∀ d t, s.tasks d = some t → (s.states d).sender.senders = 0
  metaTx : ∀ d t, s.tasks d = some t → (s.states d).metaTx.senderAlive = false

end Inflight
end Squiddish
