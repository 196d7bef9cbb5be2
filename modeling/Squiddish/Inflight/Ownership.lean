import Squiddish.Inflight.Registry

/-!
# Ownership — a key is registered exactly while one task works for it

The registry knows a download by the hash of its key only, and a key may be registered again and
again.  In every run the entry of a hash belongs to the one task of this hash whose guard is alive,
so that what a task does by its key it does to the channels that were created with it.
-/

namespace Squiddish
namespace Inflight

open Lib Cache

variable {ι : Type} {E : Env ι} {s : State ι}

/-- A task of this hash works for the download `d`: its guard has not been dropped. -/
def Working (s : State ι) (hash : Str) (d : Nat) : Prop :=
  ∃ t, s.tasks d = some t ∧ t.key.hashHex = hash ∧ t.phase.Live

namespace Registered

theorem working (h : Registered s) {hash : Str} {d : Nat} :
    Working s hash d ↔ s.downloads hash = some d := by
  constructor
  · rintro ⟨t, ht, rfl, hlive⟩
    exact h.live d t ht hlive
  · intro hd
    exact h.task hash d hd

theorem working_unique (h : Registered s) {hash : Str} {d d' : Nat} (hd : Working s hash d)
    (hd' : Working s hash d') : d = d' := by
  have hboth := (h.working.1 hd).symm.trans (h.working.1 hd')
  simpa using hboth

theorem registered_iff (h : Registered s) (hash : Str) :
    (∃ d, s.downloads hash = some d) ↔ ∃! d, Working s hash d := by
  constructor
  · rintro ⟨d, hd⟩
    exact ⟨d, h.working.2 hd, fun d' hd' => h.working_unique hd' (h.working.2 hd)⟩
  · rintro ⟨d, hd, _⟩
    exact ⟨d, h.working.1 hd⟩

/-- What a task whose guard is alive does by its key changes its own channels and no others. -/
theorem states_withDownload (h : Registered s) {d : Nat} {t : Task ι} (ht : s.tasks d = some t)
    (hlive : t.phase.Live) (f : DownloadState → DownloadState) :
    (s.withDownload t.key f).states = Function.update s.states d (f (s.states d)) := by
  rw [h.withDownload_eq ht hlive, State.states_modifyState]

end Registered

variable [DecidableEq ι]

/-- The registry and the running tasks correspond, and every operation by key reaches the download
of the task that calls it. -/
structure Corresponding (E : Env ι) (s : State ι) : Prop where
  registered : ∀ hash, (∃ d, s.downloads hash = some d) ↔ ∃! d, Working s hash d
  unique : ∀ hash d d', Working s hash d → Working s hash d' → d = d'
  /-- A task is spawned together with new channels, under a hash that was free. -/
  started : ∀ a s' d t, Step E s a s' → s.tasks d = none → s'.tasks d = some t →
    s'.states d = .new ∧ s.downloads t.key.hashHex = none ∧ s'.downloads t.key.hashHex = some d
  setResponseMeta : ∀ d resp s', Step E s (.respond d resp) s' →
    s'.states = Function.update s.states d ((s.states d).publish (.ok (metaOf resp)))
  addChunk : ∀ d bytes s', Step E s (.chunk d bytes) s' →
    s'.states = Function.update s.states d ((s.states d).addChunk bytes)
  setResponseError : ∀ d s', Step E s (.publishError d) s' →
    ∃ text, s'.states = Function.update s.states d ((s.states d).publish (.error text))
  completeDownload : ∀ d s', Step E s (.completeDownload d) s' →
    s'.states = Function.update s.states d (s.states d).unregister ∧
      ∃ hash, s.downloads hash = some d ∧ s'.downloads = Function.update s.downloads hash none

namespace Registered

theorem started_free (h : Registered s) {a : Action ι} {s' : State ι} {d : Nat} {t : Task ι}
    (hstep : Step E s a s') (hnone : s.tasks d = none) (ht : s'.tasks d = some t) :
    s'.states d = .new ∧ s.downloads t.key.hashHex = none ∧
      s'.downloads t.key.hashHex = some d := by
  -- a task is spawned by `join_or_start_download` when the hash is free
  rcases hstep.started hnone ht with ⟨hnew, c, -, hfree, -, rfl⟩
  refine ⟨hnew, hfree, (h.step hstep).live d _ ht ?_⟩
  simp [Task.new, TaskPhase.Live]

theorem corresponding (h : Registered s) : Corresponding E s where
  registered := h.registered_iff
  unique := fun _ _ _ => h.working_unique
  started := fun _ _ _ _ => h.started_free
  setResponseMeta := by
    intro d resp s' hstep
    cases hstep with
    | respond ht hphase =>
        exact h.states_withDownload ht (by simp [hphase, TaskPhase.Live])
          (fun st => st.publish (.ok (metaOf resp)))
  addChunk := by
    intro d bytes s' hstep
    cases hstep with
    | chunk ht hphase _ _ =>
        exact h.states_withDownload ht (by simp [hphase, TaskPhase.Live])
          (fun st => st.addChunk bytes)
  setResponseError := by
    intro d s' hstep
    cases hstep with
    | @publishError _ t e ht hphase _ =>
        exact ⟨e.toText, h.states_withDownload ht (by simp [hphase, TaskPhase.Live])
          (fun st => st.publish (.error e.toText))⟩
  completeDownload := by
    intro d s' hstep
    cases hstep with
    | @completeDownload _ t ht hphase =>
        have hlive : t.phase.Live := by
          rcases hphase with hphase | hphase | hphase <;> simp [hphase, TaskPhase.Live]
        exact ⟨h.states_withDownload ht hlive _, t.key.hashHex, h.live d t ht hlive, rfl⟩

end Registered

/-- In every run the registry and the running tasks correspond. -/
theorem corresponding_of_run {as : List (Action ι)} (hrun : Run (Step E) .init as s) :
    Corresponding E s := by
  have hregistered : Registered s := by
    refine hrun.invariant (I := Registered) ?_ .init
    intro s a s' h hstep
    exact h.step hstep
  exact hregistered.corresponding

/-- A download has failed, and its key is registered again while the old task still holds its
sender. -/
theorem corresponding_of_run_again :
    ∃ s : State Nat, Corresponding exampleEnv s ∧ (∃ t, s.tasks 0 = some t) ∧
      s.downloads (exampleEnv.key 1).hashHex = some 1 := by
  have hrun : Run (Step exampleEnv) .init
      [.lookup 0, .joinOrStart 0, .fetch 0, .fail 0 (.network "timed out".toList),
        .publishError 0, .sendError 0, .completeDownload 0, .lookup 1, .joinOrStart 1] _ :=
    .cons (.lookupMiss rfl rfl) <| .cons (.joinOrStart rfl) <| .cons (.fetch rfl rfl) <|
    .cons (.fail rfl (Or.inr (Or.inl rfl))) <| .cons (.publishError rfl rfl rfl) <|
    .cons (.sendError rfl rfl rfl) <| .cons (.completeDownload rfl (Or.inr (Or.inl rfl))) <|
    .cons (.lookupMiss rfl rfl) <| .cons (.joinOrStart rfl) <| .nil _
  exact ⟨_, corresponding_of_run hrun, ⟨_, rfl⟩, rfl⟩

end Inflight
end Squiddish
