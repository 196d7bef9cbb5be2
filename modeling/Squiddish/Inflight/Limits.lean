import Squiddish.Inflight.Reuse

/-!
# Limits — `max_body_size` over whole runs

`fetch_and_stream` checks a chunk before it is counted, buffered and passed on, and nothing else
checks a size.  The limit holds all the same wherever a body goes: to the list of a download, to the
buffer of its task, to the clients that started or joined it, to the cache, and to those who hit.
-/

namespace Squiddish
namespace Inflight

open Lib Cache

variable {ι : Type} {E : Env ι}

/-! ## A download -/

/-- What is counted is what has been passed on, and no more than that is buffered. -/
structure Counted (E : Env ι) (t : Task ι) (st : DownloadState) : Prop where
  accumulated : st.accumulated.flatten.length = t.totalSize
  buffer : t.cacheBuf.length ≤ t.totalSize
  size : t.totalSize ≤ E.config.security.maxBodySize

namespace Counted

variable {t t' : Task ι} {st st' : DownloadState}

theorem congr (h : Counted E t st) (hsize : t'.totalSize = t.totalSize)
    (hbuffer : t'.cacheBuf = t.cacheBuf) (haccumulated : st'.accumulated = st.accumulated) :
    Counted E t' st' where
  accumulated := by
    rw [haccumulated, hsize]
    exact h.accumulated
  buffer := by
    rw [hbuffer, hsize]
    exact h.buffer
  size := hsize ▸ h.size

theorem step {d : Nat} {a : Action ι} (h : Counted E t st)
    (hmove : DownloadStep E d a t st t' st') : Counted E t' st' := by
  cases hmove with
  | @chunk _ _ resp bytes _ _ hfits =>
      refine ⟨?_, ?_, hfits⟩
      · have haccumulated := h.accumulated
        simp [DownloadState.addChunk, Task.receive, ← haccumulated]
      · have hbuffer := h.buffer
        by_cases hcacheable : cacheable resp = true
        · simpa [Task.receive, hcacheable] using hbuffer
        · simpa [Task.receive, hcacheable] using Nat.le_add_right_of_le hbuffer
  | _ =>
      exact h.congr rfl rfl rfl

end Counted

theorem counted_of_run [DecidableEq ι] {s : State ι} {as : List (Action ι)}
    (hrun : Run (Step E) .init as s) : ∀ d t, s.tasks d = some t → Counted E t (s.states d) := by
  refine hrun.invariant_under (J := Registered)
    (I := fun s => ∀ d t, s.tasks d = some t → Counted E t (s.states d))
    (fun _ _ _ h hstep => h.step hstep) ?_ .init (by simp [State.init])
  intro s a s' hreg hall hstep
  refine hreg.downloads_step (P := fun t st => Counted E t st) hstep ?_ ?_ hall
  · intro c _
    exact ⟨rfl, Nat.le_refl _, Nat.zero_le _⟩
  · intro d t t' _ hmove hcounted
    exact hcounted.step hmove

/-! ## All that is held -/

/-- Nobody holds more of a body than the limit allows. -/
structure WithinLimit (E : Env ι) (s : State ι) : Prop where
  accumulated : ∀ d t, s.tasks d = some t →
    (s.states d).accumulated.flatten.length ≤ E.config.security.maxBodySize
  buffer : ∀ d t, s.tasks d = some t → t.cacheBuf.length ≤ E.config.security.maxBodySize
  /-- What a client has been given of a download, and what its body has still to give. -/
  received : ∀ c d, (s.clients c).download = some d →
    (s.clients c).received.flatten.length ≤ E.config.security.maxBodySize
  streaming : ∀ c d m body, (s.clients c).download = some d →
    (s.clients c).phase = .streaming m body → body.finished = false →
    ((s.clients c).received ++ body.remaining (s.states d).sender).flatten.length ≤
      E.config.security.maxBodySize
  written : ∀ key entry, (key, entry) ∈ s.written →
    entry.data.length ≤ E.config.security.maxBodySize
  cached : ∀ key entry, s.cache key = some entry →
    entry.data.length ≤ E.config.security.maxBodySize
  hit : ∀ c entry, (s.clients c).phase = .hit entry →
    entry.data.length ≤ E.config.security.maxBodySize

theorem withinLimit_of_run [DecidableEq ι] {s : State ι} {as : List (Action ι)}
    (hrun : Run (Step E) .init as s) : WithinLimit E s := by
  have hdel : Delivering s := .of_run hrun
  have hcounted := counted_of_run hrun
  have hreusing : Reusing (fun _ _ _ => True) E s := by
    refine reusing_of_preserving (hrun.mono fun _ a _ hstep => ⟨hstep, ?_⟩)
    cases a <;> simp [Preserving]
  -- whatever is stored is the buffer of a task
  have hstored : ∀ entry i resp, StoredFor E s entry i resp →
      entry.data.length ≤ E.config.security.maxBodySize := by
    rintro entry i resp ⟨d, t, ht, -, hstored⟩
    calc
      entry.data.length = t.cacheBuf.length := by rw [hstored.entry_eq.2.2.2]
      _ ≤ t.totalSize := (hcounted d t ht).buffer
      _ ≤ E.config.security.maxBodySize := (hcounted d t ht).size
  have hwritten : ∀ key entry, (key, entry) ∈ s.written →
      entry.data.length ≤ E.config.security.maxBodySize := by
    intro key entry hmem
    rcases hreusing.written key entry hmem with ⟨i, resp, hfor, -⟩
    exact hstored entry i resp hfor
  have haccumulated : ∀ d t, s.tasks d = some t →
      (s.states d).accumulated.flatten.length ≤ E.config.security.maxBodySize := by
    intro d t ht
    rw [(hcounted d t ht).accumulated]
    exact (hcounted d t ht).size
  refine ⟨haccumulated, ?_, ?_, ?_, hwritten, ?_, ?_⟩
  · intro d t ht
    exact (hcounted d t ht).buffer.trans (hcounted d t ht).size
  · intro c d hd
    rcases hdel.registered.attached c d hd with ⟨t, ht⟩
    exact (hdel.follows c d hd).1.flatten.length_le.trans (haccumulated d t ht)
  · intro c d m body hd hphase hfin
    rcases hdel.registered.attached c d hd with ⟨t, ht⟩
    have hfollows := (hdel.follows c d hd).2
    simp only [hphase] at hfollows
    rw [(hfollows.2 hfin).2.2]
    exact haccumulated d t ht
  · intro key entry hentry
    rcases hreusing.cached key entry hentry with ⟨key', hmem, -⟩
    exact hwritten key' entry hmem
  · intro c entry hhit
    rcases hreusing.hit c entry hhit with ⟨i, resp, hfor, -⟩
    exact hstored entry i resp hfor

/-- A hit and a client that is still reading. -/
theorem withinLimit_of_run_hit :
    ∃ s : State Nat, WithinLimit exampleEnv s ∧ (s.clients 1).status = some 200 := by
  have hrun : Run (Step exampleEnv) .init
      [.lookup 0, .joinOrStart 0, .fetch 0, .respond 0 ⟨200, []⟩, .awaitMeta 0,
        .chunk 0 [104, 105], .bodyEnd 0, .store 0 0, .lookup 1] _ :=
    .cons (.lookupMiss rfl rfl) <| .cons (.joinOrStart rfl) <| .cons (.fetch rfl rfl) <|
    .cons (.respond rfl rfl) <| .cons (.awaitMeta rfl rfl rfl) <|
    .cons (.chunk rfl rfl rfl (by decide)) <| .cons (.bodyEnd rfl rfl) <|
    .cons (.store (by decide) rfl rfl) <|
    .cons (.lookupStored rfl rfl rfl (by decide) storedTtl_exampleEnv) <| .nil _
  exact ⟨_, withinLimit_of_run hrun, rfl⟩

end Inflight
end Squiddish
