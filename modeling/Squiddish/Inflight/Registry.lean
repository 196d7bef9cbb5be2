import Squiddish.Inflight.System

/-!
# Registry — every operation by key reaches the download of its own task

The registry is keyed by a hash and an entry may be replaced by a later download of the same
key, so it is not plain that a task which looks its key up finds its own channels.  This file
proves it (`Registered` is an invariant of the system) and draws the two consequences on which
the later results rest:

* `Step.download` : what one step does to a download and its channels (`DownloadStep`);
* `Step.client` : what one step does to a client (`ClientStep`).
-/

namespace Squiddish
namespace Inflight

open Lib Cache

variable {ι : Type} {E : Env ι}

/-! ## The invariant of the registry -/

structure Registered (s : State ι) : Prop where
  /-- A registered download has a task of that key whose guard is alive. -/
  task : ∀ hash d, s.downloads hash = some d →
    ∃ t, s.tasks d = some t ∧ t.key.hashHex = hash ∧ t.phase.Live
  /-- A task whose guard is alive is registered. -/
  live : ∀ d t, s.tasks d = some t → t.phase.Live → s.downloads t.key.hashHex = some d
  fresh : ∀ d, s.next ≤ d → s.tasks d = none
  /-- The download of a client has a task. -/
  attached : ∀ c d, (s.clients c).download = some d → ∃ t, s.tasks d = some t

namespace Registered

theorem init : Registered (State.init : State ι) where
  task := by simp [State.init]
  live := by simp [State.init]
  fresh := by simp [State.init]
  attached := by simp [State.init, Client.new]

/-- The invariant speaks of the registry, the tasks and the downloads of the clients only. -/
theorem congr {s s' : State ι} (h : Registered s) (hdownloads : s'.downloads = s.downloads)
    (htasks : s'.tasks = s.tasks) (hnext : s'.next = s.next)
    (hclients : ∀ c d, (s'.clients c).download = some d → ∃ t, s.tasks d = some t) :
    Registered s' where
  task := by simpa [hdownloads, htasks] using h.task
  live := by simpa [hdownloads, htasks] using h.live
  fresh := by simpa [hnext, htasks] using h.fresh
  attached := by simpa [htasks] using hclients

theorem modifyState {s : State ι} (h : Registered s) (d : Nat)
    (f : DownloadState → DownloadState) : Registered (s.modifyState d f) :=
  h.congr rfl rfl rfl h.attached

theorem withDownload {s : State ι} (h : Registered s) (key : CacheKey)
    (f : DownloadState → DownloadState) : Registered (s.withDownload key f) :=
  h.congr rfl rfl rfl h.attached

theorem store {s : State ι} (h : Registered s) (t : Task ι) (now : Nat)
    (hlen : t.cacheBuf.length < 2 ^ 63) : Registered (s.store E t now hlen) :=
  h.congr rfl rfl rfl h.attached

/-- Replacing a task by one of the same key keeps the invariant as long as its guard is as
alive as before. -/
theorem setTask {s : State ι} (h : Registered s) {d : Nat} {t t' : Task ι}
    (ht : s.tasks d = some t) (hkey : t'.key = t.key)
    (hlive : t'.phase.Live ↔ t.phase.Live) : Registered (s.setTask d t') where
  task := by
    intro hash d₁ hd₁
    rcases h.task hash d₁ hd₁ with ⟨t₁, ht₁, hhash, hl₁⟩
    by_cases hd : d₁ = d
    · subst hd
      have : t₁ = t := by
        simpa [ht] using ht₁.symm
      subst this
      exact ⟨t', by simp, by simpa [hkey] using hhash, hlive.2 hl₁⟩
    · exact ⟨t₁, by simpa [hd] using ht₁, hhash, hl₁⟩
  live := by
    intro d₁ t₁ ht₁ hl₁
    by_cases hd : d₁ = d
    · subst hd
      have : t' = t₁ := by
        simpa using ht₁
      subst this
      simpa [hkey] using h.live d₁ t ht (hlive.1 hl₁)
    · exact h.live d₁ t₁ (by simpa [hd] using ht₁) hl₁
  fresh := by
    intro d₁ hd₁
    have hnone := h.fresh d₁ hd₁
    have hd : d₁ ≠ d := by
      intro heq
      simp [heq, ht] at hnone
    simpa [hd] using hnone
  attached := by
    intro c d₁ hd₁
    rcases h.attached c d₁ hd₁ with ⟨t₁, ht₁⟩
    by_cases hd : d₁ = d
    · exact ⟨t', by simp [hd]⟩
    · exact ⟨t₁, by simpa [hd] using ht₁⟩

/-- Two registered downloads of one key are the same. -/
theorem unique {s : State ι} (h : Registered s) {d d' : Nat} {t t' : Task ι}
    (ht : s.tasks d = some t) (ht' : s.tasks d' = some t') (hl : t.phase.Live)
    (hl' : t'.phase.Live) (hkey : t.key.hashHex = t'.key.hashHex) : d = d' := by
  have h₁ := h.live d t ht hl
  have h₂ := h.live d' t' ht' hl'
  simpa [hkey, h₂] using h₁.symm

/-- A task whose guard is alive finds its own channels under its key. -/
theorem withDownload_eq {s : State ι} (h : Registered s) {d : Nat} {t : Task ι}
    (ht : s.tasks d = some t) (hl : t.phase.Live) (f : DownloadState → DownloadState) :
    s.withDownload t.key f = s.modifyState d f := by
  simp [State.withDownload, State.modifyState, h.live d t ht hl]

theorem completeDownload {s : State ι} (h : Registered s) {d : Nat} {t : Task ι}
    (ht : s.tasks d = some t) (hl : t.phase.Live) :
    Registered ((s.completeDownload t.key).setTask d { t with phase := .released }) where
  task := by
    intro hash d₁ hd₁
    by_cases hhash : hash = t.key.hashHex
    -- the entry under the key of `t` is gone
    · simp [State.completeDownload, State.withDownload, hhash] at hd₁
    · have hd₁' : s.downloads hash = some d₁ := by
        simpa [State.completeDownload, State.withDownload, hhash] using hd₁
      rcases h.task hash d₁ hd₁' with ⟨t₁, ht₁, hhash₁, hl₁⟩
      have hd : d₁ ≠ d := by
        intro heq
        subst heq
        have : t₁ = t := by
          simpa [ht] using ht₁.symm
        subst this
        exact hhash hhash₁.symm
      exact ⟨t₁, by simpa [State.completeDownload, State.withDownload, hd] using ht₁, hhash₁, hl₁⟩
  live := by
    intro d₁ t₁ ht₁ hl₁
    by_cases hd : d₁ = d
    · subst hd
      have : { t with phase := .released } = t₁ := by
        simpa [State.completeDownload, State.withDownload] using ht₁
      subst this
      -- the guard of `t` has been dropped
      exact absurd rfl hl₁.1
    · have ht₁' : s.tasks d₁ = some t₁ := by
        simpa [State.completeDownload, State.withDownload, hd] using ht₁
      -- two live tasks of one key would be one, so the removal hits no other download
      have hhash : t₁.key.hashHex ≠ t.key.hashHex := by
        intro heq
        exact hd (h.unique ht₁' ht hl₁ hl heq)
      simpa [State.completeDownload, State.withDownload, hhash] using h.live d₁ t₁ ht₁' hl₁
  fresh := by
    intro d₁ hd₁
    have hnone := h.fresh d₁ (by simpa [State.completeDownload, State.withDownload] using hd₁)
    have hd : d₁ ≠ d := by
      intro heq
      simp [heq, ht] at hnone
    simpa [State.completeDownload, State.withDownload, hd] using hnone
  attached := by
    intro c d₁ hd₁
    rcases h.attached c d₁ (by simpa [State.completeDownload, State.withDownload] using hd₁) with
      ⟨t₁, ht₁⟩
    by_cases hd : d₁ = d
    · exact ⟨{ t with phase := .released }, by simp [hd]⟩
    · exact ⟨t₁, by simpa [State.completeDownload, State.withDownload, hd] using ht₁⟩

variable [DecidableEq ι]

theorem setClient {s : State ι} (h : Registered s) (c : ι) (client : Client)
    (hclient : ∀ d, client.download = some d → ∃ t, s.tasks d = some t) :
    Registered (s.setClient c client) := by
  refine h.congr rfl rfl rfl ?_
  intro c' d hd
  by_cases hc : c' = c
  · subst hc
    exact hclient d (by simpa using hd)
  · exact h.attached c' d (by simpa [hc] using hd)

theorem setPhase {s : State ι} (h : Registered s) (c : ι) (phase : ClientPhase) :
    Registered (s.setPhase c phase) :=
  h.setClient c _ (h.attached c)

theorem joinOrStartDownload {s : State ι} (h : Registered s) (c : ι) :
    Registered (s.joinOrStartDownload E c) := by
  cases hd : s.downloads (E.key c).hashHex with
  | some d =>
      rcases h.task _ d hd with ⟨t, ht, -, -⟩
      -- whoever joins is attached to the registered download, which has a task
      have hjoin := (h.modifyState d DownloadState.subscribeMeta).setClient c
        { s.clients c with
          phase := .waiting (s.states d).sender.subscribe (s.states d).accumulated
          download := some d }
        (by
          intro d' hd'
          have : d = d' := by
            simpa using hd'
          exact ⟨t, by simpa [← this] using ht⟩)
      simpa [State.joinOrStartDownload, hd] using hjoin
  | none =>
      have hnext : s.tasks s.next = none := h.fresh _ (Nat.le_refl _)
      -- no task whose guard is alive has this key, and no task has the new number
      constructor
      · intro hash d₁ hd₁
        by_cases hhash : hash = (E.key c).hashHex
        · have : s.next = d₁ := by
            simpa [State.joinOrStartDownload, hd, hhash] using hd₁
          subst this
          exact ⟨Task.new (E.key c) c (E.request c), by simp [State.joinOrStartDownload, hd],
            by simp [Task.new, hhash], by simp [Task.new, TaskPhase.Live]⟩
        · have hd₁' : s.downloads hash = some d₁ := by
            simpa [State.joinOrStartDownload, hd, hhash] using hd₁
          rcases h.task hash d₁ hd₁' with ⟨t₁, ht₁, hrest⟩
          have hne : d₁ ≠ s.next := by
            intro heq
            simp [heq, hnext] at ht₁
          exact ⟨t₁, by simpa [State.joinOrStartDownload, hd, hne] using ht₁, hrest⟩
      · intro d₁ t₁ ht₁ hl₁
        by_cases hne : d₁ = s.next
        · subst hne
          have : Task.new (E.key c) c (E.request c) = t₁ := by
            simpa [State.joinOrStartDownload, hd] using ht₁
          subst this
          simp [State.joinOrStartDownload, hd, Task.new]
        · have ht₁' : s.tasks d₁ = some t₁ := by
            simpa [State.joinOrStartDownload, hd, hne] using ht₁
          have hlive := h.live d₁ t₁ ht₁' hl₁
          -- a live task of this key would be registered, and nothing is
          have hhash : t₁.key.hashHex ≠ (E.key c).hashHex := by
            intro heq
            simp [heq, hd] at hlive
          simpa [State.joinOrStartDownload, hd, hhash] using hlive
      · intro d₁ hd₁
        have hlt : s.next + 1 ≤ d₁ := by
          simpa [State.joinOrStartDownload, hd] using hd₁
        simpa [State.joinOrStartDownload, hd, Nat.ne_of_gt hlt] using
          h.fresh d₁ (Nat.le_of_succ_le hlt)
      · intro c' d₁ hd₁
        by_cases hne : d₁ = s.next
        · exact ⟨Task.new (E.key c) c (E.request c), by simp [State.joinOrStartDownload, hd, hne]⟩
        · by_cases hc : c' = c
          · have : s.next = d₁ := by
              simpa [State.joinOrStartDownload, hd, hc] using hd₁
            exact absurd this.symm hne
          · rcases h.attached c' d₁ (by simpa [State.joinOrStartDownload, hd, hc] using hd₁) with
              ⟨t₁, ht₁⟩
            exact ⟨t₁, by simpa [State.joinOrStartDownload, hd, hne] using ht₁⟩

/-- Every step keeps the invariant. -/
theorem step {s s' : State ι} {a : Action ι} (h : Registered s) (hstep : Step E s a s') :
    Registered s' := by
  cases hstep with
  | lookupHit _ _ | lookupMiss _ _ | lookupFailed _ _ | awaitMeta _ _ _ | disconnect _ _ =>
      exact h.setPhase _ _
  | joinOrStart _ =>
      exact h.joinOrStartDownload _
  | awaitError _ _ _ | awaitClosed _ _ _ _ | build _ _ | disconnectWaiting _ _
  | disconnectAnswered _ _ =>
      exact (h.modifyState _ _).setPhase _ _
  | @poll c =>
      exact h.setClient _ _ (by simpa using h.attached c)
  | fetch ht hphase | bodyEnd ht hphase | storeFailed ht hphase | oversized ht hphase _ =>
      exact h.setTask ht rfl (by simp [hphase, TaskPhase.Live])
  | @respond d t resp ht hphase =>
      have ht' : (s.setResponseMeta t.key (metaOf resp)).tasks d = some t := ht
      exact (h.withDownload _ _).setTask ht' rfl (by simp [hphase, TaskPhase.Live])
  | @chunk d t _ bytes ht _ _ _ =>
      have ht' : (s.addChunk t.key bytes).tasks d = some t := ht
      exact (h.withDownload _ _).setTask ht' rfl Iff.rfl
  | @store d t now hlen ht hphase =>
      have ht' : (s.store E t now hlen).tasks d = some t := ht
      exact (h.store t now hlen).setTask ht' rfl (by simp [hphase, TaskPhase.Live])
  | fail ht hphase =>
      refine h.setTask ht rfl ?_
      rcases hphase with hphase | hphase | hphase <;> simp [hphase, TaskPhase.Live]
  | @publishError d t e ht hphase _ =>
      have ht' : (s.setResponseError t.key e.toText).tasks d = some t := ht
      exact (h.withDownload _ _).setTask ht' rfl (by simp [hphase, TaskPhase.Live])
  | @sendError d t e ht hphase _ =>
      have ht' : (s.modifyState d (fun st => st.report (.error e.toText))).tasks d = some t := ht
      exact (h.modifyState d _).setTask ht' rfl (by simp [hphase, TaskPhase.Live])
  | @sendComplete d t ht hphase =>
      have ht' : (s.modifyState d (fun st => st.report .complete)).tasks d = some t := ht
      exact (h.modifyState d _).setTask ht' rfl (by simp [hphase, TaskPhase.Live])
  | panic ht hphase =>
      -- a task that panics still has its guard; the registry is left when that is dropped
      exact h.setTask ht rfl (by simpa [TaskPhase.Live] using hphase.2.2.2)
  | completeDownload ht hphase =>
      refine h.completeDownload ht ?_
      rcases hphase with hphase | hphase | hphase <;> simp [hphase, TaskPhase.Live]
  | @endTask d t ht hphase =>
      have ht' : (s.modifyState d DownloadState.dropTask).tasks d = some t := ht
      exact (h.modifyState d _).setTask ht' rfl (by simp [hphase, TaskPhase.Live])
  | evict | restore _ _ =>
      exact h.congr rfl rfl rfl h.attached

end Registered

/-! ## What one step does to a download -/

/-- The channels with another number of receivers for the headers. -/
def DownloadState.withReceivers (st : DownloadState) (n : Nat) : DownloadState :=
  { st with metaTx := { st.metaTx with receivers := n } }

/-- What one step does to the download `d`: clients only come and go (`receivers`), or its task
moves. -/
inductive DownloadStep (E : Env ι) (d : Nat) :
    Action ι → Task ι → DownloadState → Task ι → DownloadState → Prop
  | receivers {a : Action ι} {t : Task ι} {st : DownloadState} (n : Nat) :
      DownloadStep E d a t st t (st.withReceivers n)
  | fetch {t : Task ι} {st : DownloadState} :
      t.phase = .spawned →
      DownloadStep E d (.fetch d) t st { t with phase := .requested } st
  | respond {t : Task ι} {st : DownloadState} {resp : Response} :
      t.phase = .requested →
      DownloadStep E d (.respond d resp) t st
        { t with phase := .streaming, response := some resp } (st.publish (.ok (metaOf resp)))
  | chunk {t : Task ι} {st : DownloadState} {resp : Response} {bytes : Bytes} :
      t.phase = .streaming → t.response = some resp →
      t.totalSize + bytes.length ≤ E.config.security.maxBodySize →
      DownloadStep E d (.chunk d bytes) t st (t.receive resp bytes) (st.addChunk bytes)
  | oversized {t : Task ι} {st : DownloadState} {bytes : Bytes} :
      t.phase = .streaming →
      DownloadStep E d (.oversized d bytes) t st
        { t with
          phase := .failed
          upstream := t.upstream ++ [bytes]
          failure := some (.validationFailed "Response body too large".toList) }
        st
  | bodyEnd {t : Task ι} {st : DownloadState} :
      t.phase = .streaming →
      DownloadStep E d (.bodyEnd d) t st { t with phase := .received, bodyComplete := true } st
  | store {t : Task ι} {st : DownloadState} {now : Nat} :
      t.phase = .received →
      DownloadStep E d (.store d now) t st { t with phase := .succeeded } st
  | storeFailed {t : Task ι} {st : DownloadState} :
      t.phase = .received →
      DownloadStep E d (.storeFailed d) t st { t with phase := .succeeded } st
  | fail {t : Task ι} {st : DownloadState} {e : ProxyError} :
      t.phase = .spawned ∨ t.phase = .requested ∨ t.phase = .streaming →
      DownloadStep E d (.fail d e) t st { t with phase := .failed, failure := some e } st
  | publishError {t : Task ι} {st : DownloadState} {e : ProxyError} :
      t.phase = .failed → t.failure = some e →
      DownloadStep E d (.publishError d) t st { t with phase := .errorPublished }
        (st.publish (.error e.toText))
  | sendError {t : Task ι} {st : DownloadState} {e : ProxyError} :
      t.phase = .errorPublished → t.failure = some e →
      DownloadStep E d (.sendError d) t st { t with phase := .errorSent }
        (st.report (.error e.toText))
  | sendComplete {t : Task ι} {st : DownloadState} :
      t.phase = .succeeded →
      DownloadStep E d (.sendComplete d) t st { t with phase := .completeSent }
        (st.report .complete)
  | panic {t : Task ι} {st : DownloadState} :
      t.phase.Running → DownloadStep E d (.panic d) t st { t with phase := .panicked } st
  | completeDownload {t : Task ι} {st : DownloadState} :
      t.phase = .completeSent ∨ t.phase = .errorSent ∨ t.phase = .panicked →
      DownloadStep E d (.completeDownload d) t st { t with phase := .released } st.unregister
  | endTask {t : Task ι} {st : DownloadState} :
      t.phase = .released →
      DownloadStep E d (.endTask d) t st { t with phase := .ended } st.dropTask

theorem DownloadStep.refl {d : Nat} {a : Action ι} {t : Task ι} {st : DownloadState} :
    DownloadStep E d a t st t st :=
  .receivers st.metaTx.receivers

/-- The step `a` moves the download `d` from its state in `s` to its state in `s'`. -/
def Moves (E : Env ι) (d : Nat) (a : Action ι) (s s' : State ι) : Prop :=
  ∀ t, s.tasks d = some t →
    ∃ t', s'.tasks d = some t' ∧ DownloadStep E d a t (s.states d) t' (s'.states d)

namespace Moves

variable {s s' : State ι} {d : Nat} {a : Action ι}

theorem of_eq (htasks : s'.tasks d = s.tasks d) (hstates : s'.states d = s.states d) :
    Moves E d a s s' := by
  intro t ht
  refine ⟨t, by simpa [htasks] using ht, ?_⟩
  rw [hstates]
  exact .refl

/-- Only the receivers for the headers of the download `d₀` change. -/
theorem of_receivers (d₀ : Nat) {f : DownloadState → DownloadState}
    (hf : ∀ st, ∃ n, f st = st.withReceivers n) (htasks : s'.tasks = s.tasks)
    (hstates : s'.states = (s.modifyState d₀ f).states) : Moves E d a s s' := by
  intro t ht
  refine ⟨t, by simpa [htasks] using ht, ?_⟩
  by_cases hd : d = d₀
  · subst hd
    rcases hf (s.states d) with ⟨n, hn⟩
    simpa [hstates, hn] using DownloadStep.receivers n
  · simpa [hstates, hd] using DownloadStep.refl

/-- The task of the download `d₀` and its channels are the only ones that change. -/
theorem of_update {d₀ : Nat} {t₀ t₀' : Task ι} {st₀' : DownloadState}
    (ht₀ : s.tasks d₀ = some t₀) (htasks : s'.tasks = Function.update s.tasks d₀ (some t₀'))
    (hstates : s'.states = Function.update s.states d₀ st₀')
    (hstep : DownloadStep E d₀ a t₀ (s.states d₀) t₀' st₀') : Moves E d a s s' := by
  intro t ht
  by_cases hd : d = d₀
  · subst hd
    have : t₀ = t := by
      simpa [ht₀] using ht
    subst this
    exact ⟨t₀', by simp [htasks], by simpa [hstates] using hstep⟩
  · exact ⟨t, by simpa [htasks, hd] using ht, by simpa [hstates, hd] using DownloadStep.refl⟩

end Moves

variable [DecidableEq ι]

/-- Under the invariant of the registry every step moves every download by `DownloadStep`. -/
theorem Registered.moves {s s' : State ι} {a : Action ι} (h : Registered s)
    (hstep : Step E s a s') (d : Nat) : Moves E d a s s' := by
  have hsub : ∀ st : DownloadState, ∃ n, st.subscribeMeta = st.withReceivers n :=
    fun st => ⟨st.metaTx.receivers + 1, rfl⟩
  have hdrop : ∀ st : DownloadState, ∃ n, st.dropMeta = st.withReceivers n :=
    fun st => ⟨st.metaTx.receivers - 1, rfl⟩
  cases hstep with
  | lookupHit _ _ | lookupMiss _ _ | lookupFailed _ _ | awaitMeta _ _ _ | disconnect _ _
  | poll _ _ | evict | restore _ _ =>
      exact .of_eq rfl rfl
  | @joinOrStart c _ =>
      cases hd : s.downloads (E.key c).hashHex with
      | some d₀ =>
          exact .of_receivers d₀ hsub (by simp [State.joinOrStartDownload, hd])
            (by simp [State.joinOrStartDownload, hd])
      | none =>
          -- the new download has no task yet, so it is none of those that move
          intro t ht
          have hne : d ≠ s.next := by
            intro heq
            simp [heq, h.fresh _ (Nat.le_refl _)] at ht
          exact ⟨t, by simpa [State.joinOrStartDownload, hd, hne] using ht,
            by simpa [State.joinOrStartDownload, hd, hne] using DownloadStep.refl⟩
  | awaitError _ _ _ | awaitClosed _ _ _ _ | build _ _ | disconnectWaiting _ _
  | disconnectAnswered _ _ =>
      exact .of_receivers _ hdrop rfl rfl
  | fetch ht hphase =>
      exact .of_update ht rfl (by simp) (.fetch hphase)
  | @respond d₀ t resp ht hphase =>
      have hl : t.phase.Live := by
        simp [hphase, TaskPhase.Live]
      -- what the task finds under its key is its own download
      rw [State.setResponseMeta, h.withDownload_eq ht hl]
      exact .of_update ht rfl rfl (.respond hphase)
  | @chunk d₀ t resp bytes ht hphase hresp hsize =>
      have hl : t.phase.Live := by
        simp [hphase, TaskPhase.Live]
      rw [State.addChunk, h.withDownload_eq ht hl]
      exact .of_update ht rfl rfl (.chunk hphase hresp hsize)
  | oversized ht hphase _ =>
      exact .of_update ht rfl (by simp) (.oversized hphase)
  | bodyEnd ht hphase =>
      exact .of_update ht rfl (by simp) (.bodyEnd hphase)
  | store hlen ht hphase =>
      exact .of_update ht rfl (by simp [State.store]) (.store hphase)
  | storeFailed ht hphase =>
      exact .of_update ht rfl (by simp) (.storeFailed hphase)
  | fail ht hphase =>
      exact .of_update ht rfl (by simp) (.fail hphase)
  | @publishError d₀ t e ht hphase hfailure =>
      have hl : t.phase.Live := by
        simp [hphase, TaskPhase.Live]
      rw [State.setResponseError, h.withDownload_eq ht hl]
      exact .of_update ht rfl rfl (.publishError hphase hfailure)
  | sendError ht hphase hfailure =>
      exact .of_update ht rfl rfl (.sendError hphase hfailure)
  | sendComplete ht hphase =>
      exact .of_update ht rfl rfl (.sendComplete hphase)
  | panic ht hphase =>
      exact .of_update ht rfl (by simp) (.panic hphase)
  | @completeDownload d₀ t ht hphase =>
      have hl : t.phase.Live := by
        rcases hphase with hphase | hphase | hphase <;> simp [hphase, TaskPhase.Live]
      rw [State.completeDownload, h.withDownload_eq ht hl]
      exact .of_update ht rfl rfl (.completeDownload hphase)
  | endTask ht hphase =>
      exact .of_update ht rfl rfl (.endTask hphase)

/-- A download that appears is a fresh one with fresh channels, and its client has just
started it. -/
theorem Step.started {s s' : State ι} {a : Action ι} (hstep : Step E s a s') {d : Nat}
    {t' : Task ι} (hnone : s.tasks d = none) (ht' : s'.tasks d = some t') :
    s'.states d = .new ∧
      ∃ c, a = .joinOrStart c ∧ s.downloads (E.key c).hashHex = none ∧ d = s.next ∧
        t' = Task.new (E.key c) c (E.request c) := by
  -- replacing a task that is there brings no other about
  have hold : ∀ {d₀ : Nat} {t₀ t₀' : Task ι}, s.tasks d₀ = some t₀ →
      Function.update s.tasks d₀ (some t₀') d = some t' → False := by
    intro d₀ t₀ t₀' ht₀ hupd
    by_cases hd : d = d₀
    · simp [← hd, hnone] at ht₀
    · simp [hd, hnone] at hupd
  cases hstep with
  | lookupHit _ _ | lookupMiss _ _ | lookupFailed _ _ | awaitMeta _ _ _ | disconnect _ _
  | poll _ _ | evict | restore _ _ | awaitError _ _ _ | awaitClosed _ _ _ _ | build _ _
  | disconnectWaiting _ _ | disconnectAnswered _ _ =>
      have : none = some t' := hnone.symm.trans ht'
      cases this
  | @joinOrStart c _ =>
      cases hd : s.downloads (E.key c).hashHex with
      | some d₀ =>
          simp [State.joinOrStartDownload, hd, hnone] at ht'
      | none =>
          by_cases hne : d = s.next
          · subst hne
            have : Task.new (E.key c) c (E.request c) = t' := by
              simpa [State.joinOrStartDownload, hd] using ht'
            exact ⟨by simp [State.joinOrStartDownload, hd], c, rfl, hd, rfl, this.symm⟩
          · simp [State.joinOrStartDownload, hd, hne, hnone] at ht'
  | fetch ht _ | respond ht _ | chunk ht _ _ _ | oversized ht _ _ | bodyEnd ht _
  | store _ ht _ | storeFailed ht _ | fail ht _ | publishError ht _ _ | sendError ht _ _
  | sendComplete ht _ | panic ht _ | completeDownload ht _ | endTask ht _ =>
      exact (hold ht ht').elim

/-- What holds of a fresh download and is preserved by what the step does to each download holds
of all downloads after it. -/
theorem Registered.downloads_step {P : Task ι → DownloadState → Prop}
    {s s' : State ι} {a : Action ι} (h : Registered s) (hstep : Step E s a s')
    (hnew : ∀ c, a = .joinOrStart c → P (Task.new (E.key c) c (E.request c)) .new)
    (hP : ∀ d t t', s.tasks d = some t → DownloadStep E d a t (s.states d) t' (s'.states d) →
      P t (s.states d) → P t' (s'.states d))
    (hall : ∀ d t, s.tasks d = some t → P t (s.states d)) :
    ∀ d t, s'.tasks d = some t → P t (s'.states d) := by
  intro d t' ht'
  cases ht : s.tasks d with
  | none =>
      rcases hstep.started ht ht' with ⟨hst, c, hact, -, -, htask⟩
      rw [hst, htask]
      exact hnew c hact
  | some t =>
      rcases h.moves hstep d t ht with ⟨t₁, ht₁, hmove⟩
      have : t₁ = t' := by
        simpa [ht'] using ht₁.symm
      subst this
      exact hP d t t₁ ht hmove (hall d t ht)

/-! ## What one step does to a client -/

/-- The phases in which a request is over, apart from its streaming. -/
def ClientPhase.Settled : ClientPhase → Prop
  | .hit _ | .refused _ | .gone => True
  | _ => False

/-- What a step `a` from `s` does to the client `c`. -/
inductive ClientStep (E : Env ι) (s : State ι) (c : ι) : Action ι → Client → Prop
  | unchanged {a : Action ι} : ClientStep E s c a (s.clients c)
  | settled {a : Action ι} {phase : ClientPhase} :
      phase.Settled → ClientStep E s c a { s.clients c with phase := phase }
  | missed :
      (s.clients c).phase = .arrived → s.cache (E.key c) = none →
      ClientStep E s c (.lookup c) { s.clients c with phase := .missed }
  | joined {d : Nat} :
      (s.clients c).phase = .missed → s.downloads (E.key c).hashHex = some d →
      ClientStep E s c (.joinOrStart c)
        { s.clients c with
          phase := .waiting (s.states d).sender.subscribe (s.states d).accumulated
          download := some d }
  | started :
      (s.clients c).phase = .missed → s.downloads (E.key c).hashHex = none →
      ClientStep E s c (.joinOrStart c)
        { s.clients c with
          phase := .waiting DownloadState.new.sender.subscribe []
          download := some s.next }
  | answered {d : Nat} {rx : Receiver} {initial : List Bytes} {m : ResponseMeta} :
      (s.clients c).phase = .waiting rx initial → (s.clients c).download = some d →
      (s.states d).metaTx.value = some (.ok m) →
      ClientStep E s c (.awaitMeta c) { s.clients c with phase := .answered rx initial m }
  | built {rx : Receiver} {initial : List Bytes} {m : ResponseMeta} :
      (s.clients c).phase = .answered rx initial m →
      ClientStep E s c (.build c) { s.clients c with phase := .streaming m (.new rx initial) }
  | polled {d : Nat} {m : ResponseMeta} {body : StreamingBody} :
      (s.clients c).phase = .streaming m body → (s.clients c).download = some d →
      ClientStep E s c (.poll c) ((s.clients c).polled m (body.pollFrame (s.states d).sender))

theorem ClientStep.setPhase {s : State ι} {a : Action ι} {c₀ : ι} {phase : ClientPhase}
    (h : ClientStep E s c₀ a { s.clients c₀ with phase := phase }) (c : ι) :
    ClientStep E s c a ((s.setPhase c₀ phase).clients c) := by
  by_cases hc : c = c₀
  · subst hc
    simpa [State.setPhase] using h
  · simpa [State.setPhase, hc] using ClientStep.unchanged

/-- Every step changes every client by `ClientStep`. -/
theorem Step.client {s s' : State ι} {a : Action ι} (hstep : Step E s a s') (c : ι) :
    ClientStep E s c a (s'.clients c) := by
  cases hstep with
  | lookupHit _ _ | lookupFailed _ _ | awaitError _ _ _ | awaitClosed _ _ _ _
  | disconnectWaiting _ _ | disconnectAnswered _ _ | disconnect _ _ =>
      exact (ClientStep.settled (by simp [ClientPhase.Settled])).setPhase c
  | lookupMiss hphase hcache =>
      exact (ClientStep.missed hphase hcache).setPhase c
  | awaitMeta hphase hd hwait =>
      exact (ClientStep.answered hphase hd (Watch.waitFor_eq_ready hwait).1).setPhase c
  | build hphase _ =>
      exact (ClientStep.built hphase).setPhase c
  | @joinOrStart c₀ hphase =>
      by_cases hc : c = c₀
      · subst hc
        cases hd : s.downloads (E.key c).hashHex with
        | some d =>
            simpa [State.joinOrStartDownload, hd] using ClientStep.joined hphase hd
        | none =>
            simpa [State.joinOrStartDownload, hd] using ClientStep.started hphase hd
      · cases hd : s.downloads (E.key c₀).hashHex with
        | some d =>
            simpa [State.joinOrStartDownload, hd, hc] using ClientStep.unchanged
        | none =>
            simpa [State.joinOrStartDownload, hd, hc] using ClientStep.unchanged
  | @poll c₀ d m body hphase hd =>
      by_cases hc : c = c₀
      · subst hc
        simpa using ClientStep.polled hphase hd
      · simpa [hc] using ClientStep.unchanged
  | fetch _ _ | respond _ _ | chunk _ _ _ _ | oversized _ _ _ | bodyEnd _ _ | store _ _ _
  | storeFailed _ _ | fail _ _ | publishError _ _ _ | sendError _ _ _ | sendComplete _ _
  | panic _ _ | completeDownload _ _ | endTask _ _ | evict | restore _ _ =>
      exact .unchanged

/-- The rule for what holds between a client and its download.  It must survive the client's own
part of the step, hold for the initiator of a fresh download, and survive the move of the
download. -/
theorem Registered.clients_step {P : ι → Client → Task ι → DownloadState → Prop}
    {s s' : State ι} {a : Action ι} (h : Registered s) (hstep : Step E s a s')
    (hown : ∀ c client' d t, ClientStep E s c a client' → client'.download = some d →
      s.tasks d = some t → P c client' t (s.states d))
    (hnew : ∀ c, (s.clients c).phase = .missed →
      P c
        { s.clients c with
          phase := .waiting DownloadState.new.sender.subscribe [], download := some s.next }
        (Task.new (E.key c) c (E.request c)) .new)
    (hmove : ∀ c d t t', ClientStep E s c a (s'.clients c) → (s'.clients c).download = some d →
      s.tasks d = some t → DownloadStep E d a t (s.states d) t' (s'.states d) →
      P c (s'.clients c) t (s.states d) → P c (s'.clients c) t' (s'.states d)) :
    ∀ c d t, (s'.clients c).download = some d → s'.tasks d = some t →
      P c (s'.clients c) t (s'.states d) := by
  intro c d t' hd ht'
  have hclient := hstep.client c
  cases ht : s.tasks d with
  | some t =>
      rcases h.moves hstep d t ht with ⟨t₁, ht₁, hm⟩
      have : t₁ = t' := by
        simpa [ht'] using ht₁.symm
      subst this
      exact hmove c d t t₁ hclient hd ht hm (hown c _ d t hclient hd ht)
  | none =>
      -- the download is the one this step starts, and the client is its initiator
      rcases hstep.started ht ht' with ⟨hst, c', hact, -, -, htask⟩
      have hno : (s.clients c).download ≠ some d := by
        intro hd'
        rcases h.attached c d hd' with ⟨t, ht₁⟩
        simp [ht] at ht₁
      rw [hst, htask]
      generalize s'.clients c = client' at hclient hd ⊢
      cases hclient with
      | unchanged | settled _ | missed _ _ | answered _ _ _ | built _ =>
          exact absurd hd hno
      | polled _ _ =>
          exact absurd (by simpa using hd) hno
      | joined _ hdown =>
          -- a download that can be joined has a task already
          cases hd
          rcases h.task _ _ hdown with ⟨t, ht₁, -, -⟩
          simp [ht] at ht₁
      | started hmissed _ =>
          cases hd
          cases hact
          exact hnew c hmissed

end Inflight
end Squiddish
