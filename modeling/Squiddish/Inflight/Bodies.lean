import Squiddish.Inflight.Delivery

/-!
# Bodies — a whole body is the same for all

What a task buffers for the cache, and what a client has received when its body has ended without
an error, are the data upstream has delivered, whenever upstream has delivered all of it.  Both hold
in any run; a body that is not whole is another matter.
-/

namespace Squiddish
namespace Inflight

open Lib Cache

variable {ι : Type} {E : Env ι}

/-! ## The buffer of a task -/

/-- What a task that has not failed has counted and buffered is what upstream has delivered. -/
structure Buffered (E : Env ι) (t : Task ι) : Prop where
  early : t.phase = .spawned ∨ t.phase = .requested →
    t.upstream = [] ∧ t.cacheBuf = [] ∧ t.totalSize = 0
  size : t.phase.Reading ∨ t.bodyComplete = true →
    t.totalSize = t.upstream.flatten.length ∧ t.totalSize ≤ E.config.security.maxBodySize
  buffer : t.phase.Reading ∨ t.bodyComplete = true →
    ∀ resp, t.response = some resp → cacheable resp = true → t.cacheBuf = t.upstream.flatten

namespace Buffered

variable {t t' : Task ι} {st st' : DownloadState}

theorem new (key : CacheKey) (c : ι) (req : Request) : Buffered E (Task.new key c req) where
  early := fun _ => ⟨rfl, rfl, rfl⟩
  size := fun _ => ⟨rfl, Nat.zero_le _⟩
  buffer := by simp [Task.new]

/-- Steps that keep the data, and do not make a failed task whole. -/
theorem congr (h : Buffered E t) (hearly : t'.phase = .spawned ∨ t'.phase = .requested →
      t.phase = .spawned ∨ t.phase = .requested)
    (hwhole : t'.phase.Reading ∨ t'.bodyComplete = true → t.phase.Reading ∨ t.bodyComplete = true)
    (hresponse : t'.response = t.response) (hupstream : t'.upstream = t.upstream)
    (hbuffer : t'.cacheBuf = t.cacheBuf) (hsize : t'.totalSize = t.totalSize) : Buffered E t' where
  early := by
    intro hphase
    simpa only [hupstream, hbuffer, hsize] using h.early (hearly hphase)
  size := by
    intro hw
    simpa only [hupstream, hsize] using h.size (hwhole hw)
  buffer := by
    intro hw
    simpa only [hresponse, hupstream, hbuffer] using h.buffer (hwhole hw)

theorem step {d : Nat} {a : Action ι} (h : Buffered E t) (hcons : Consistent t st)
    (hmove : DownloadStep E d a t st t' st') : Buffered E t' := by
  cases hmove with
  | receivers n =>
      exact h
  | fetch hphase =>
      exact h.congr (fun _ => Or.inl hphase) (fun _ => Or.inl (Or.inl hphase)) rfl rfl rfl rfl
  | @respond _ _ resp hphase =>
      -- nothing has been received before the answer
      rcases h.early (Or.inr hphase) with ⟨hupstream, hbuffer, hsize⟩
      refine ⟨by simp, fun _ => h.size (Or.inl (Or.inr (Or.inl hphase))), ?_⟩
      intro _ _ _ _
      simp [hupstream, hbuffer]
  | @chunk _ _ resp bytes hphase hresp hfits =>
      -- a chunk goes to the buffer, too, when the answer is cacheable
      have hreading : t.phase.Reading ∨ t.bodyComplete = true := Or.inl (Or.inr (Or.inr hphase))
      refine ⟨by simp [hphase], ?_, ?_⟩
      · intro _
        refine ⟨?_, hfits⟩
        simp [Task.receive, (h.size hreading).1]
      · intro _ resp' hresp' hcacheable
        have : resp = resp' := by
          simpa [Task.receive, hresp] using hresp'
        subst this
        simp [Task.receive, hcacheable, h.buffer hreading resp hresp hcacheable]
  | @oversized _ _ bytes hphase =>
      -- the task has failed: its body will not be whole
      have hbody := hcons.body false (by rw [hphase]; rfl)
      exact ⟨by simp, by simp [TaskPhase.Reading, hbody], by simp [TaskPhase.Reading, hbody]⟩
  | bodyEnd hphase =>
      exact h.congr (by simp) (fun _ => Or.inl (Or.inr (Or.inr hphase))) rfl rfl rfl rfl
  | fail hphase =>
      exact h.congr (by simp) (fun _ => Or.inl hphase) rfl rfl rfl rfl
  | store _ | storeFailed _ | publishError _ _ | sendError _ _ | sendComplete _ | panic _
  | completeDownload _ | endTask _ =>
      refine h.congr (by simp) ?_ rfl rfl rfl rfl
      rintro (hreading | hcomplete)
      · simp [TaskPhase.Reading] at hreading
      · exact Or.inr hcomplete

end Buffered

/-! ## The body of a client -/

/-- A body that has ended without an error will get no more, and is whole when upstream's is. -/
def Ended (client : Client) (t : Task ι) : Prop :=
  client.ending = some (.ok ()) →
    ¬ t.phase.Reading ∧ (t.bodyComplete = true → client.received = t.upstream)

namespace Ended

variable {client : Client} {t t' : Task ι} {st st' : DownloadState}

theorem of_ending (hending : client.ending = none) : Ended client t := by
  simp [Ended, hending]

theorem step {d : Nat} {a : Action ι} (h : Ended client t)
    (hmove : DownloadStep E d a t st t' st') : Ended client t' := by
  intro hending
  rcases h hending with ⟨hnot, hwhole⟩
  cases hmove with
  | receivers n =>
      exact ⟨hnot, hwhole⟩
  | fetch hphase =>
      exact absurd (Or.inl hphase) hnot
  | respond hphase =>
      exact absurd (Or.inr (Or.inl hphase)) hnot
  | chunk hphase _ _ | oversized hphase | bodyEnd hphase =>
      exact absurd (Or.inr (Or.inr hphase)) hnot
  | store _ | storeFailed _ | fail _ | publishError _ _ | sendError _ _ | sendComplete _
  | panic _ | completeDownload _ | endTask _ =>
      exact ⟨by simp [TaskPhase.Reading], hwhole⟩

theorem polled {m : ResponseMeta} {body body' : StreamingBody} {r : PollResult}
    (h : Ended client t) (hcons : Consistent t st) (hfollows : Follows client st)
    (hphase : client.phase = .streaming m body) (hpoll : body.Polled st.sender r body') :
    Ended (client.polled m (r, body')) t := by
  have hrest := hfollows.2
  simp only [hphase] at hrest
  have hopen : body.finished = false → client.ending = none :=
    fun hfin => (hrest.2 hfin).1
  have hreading : t.phase.Reading → t.bodyComplete = false := by
    rintro (hp | hp | hp) <;> exact hcons.body false (by rw [hp]; rfl)
  -- the poll ends the body, and the client has all there is
  have hdone : body.finished = false → body.remaining st.sender = [] → ¬ t.phase.Reading →
      Ended (client.polled m (.done, body')) t := by
    intro hfin hnil hnot _
    refine ⟨hnot, fun hcomplete => ?_⟩
    rw [← hcons.exact (Or.inr hcomplete)]
    exact hfollows.received_of_remaining hphase hfin hnil
  cases hpoll with
  | finished hfin =>
      intro hending
      cases hold : client.ending with
      | none =>
          exact absurd hold (hrest.1 hfin)
      | some e =>
          exact h (by simpa [Client.polled, hold] using hending)
  | initial hfin _ | live hfin _ _ _ | empty hfin _ _ _ _ =>
      exact of_ending (hopen hfin)
  | @complete rest hfin hdrained _ hpend =>
      rcases hcons.complete_of_pending hpend with ⟨hcomplete, hnil⟩
      refine hdone hfin ?_ ?_
      · simp [StreamingBody.remaining, hpend, hnil, List.drop_eq_nil_of_le hdrained]
      -- upstream's body is complete, so the task no longer reads
      · intro hread
        simp [hreading hread] at hcomplete
  | error hfin _ _ _ | lagged hfin _ _ =>
      intro hending
      simp [Client.polled, hopen hfin] at hending
  | closed hfin hdrained _ hpend hsenders =>
      refine hdone hfin ?_ ?_
      · simp [StreamingBody.remaining, hpend, List.drop_eq_nil_of_le hdrained]
      · intro hread
        have hzero := hcons.senders.symm.trans hsenders
        rcases hread with hp | hp | hp <;> simp [hp, TaskPhase.senders] at hzero

end Ended

/-! ## All runs -/

/-- The invariant of all runs. -/
structure Whole (E : Env ι) (s : State ι) : Prop where
  buffered : ∀ d t, s.tasks d = some t → Buffered E t
  ended : ∀ c d t, (s.clients c).download = some d → s.tasks d = some t → Ended (s.clients c) t

theorem Delivering.ended_client {s : State ι} {a : Action ι} {c : ι} {client' : Client} {d : Nat}
    {t : Task ι} (h : Delivering s)
    (hall : ∀ c d t, (s.clients c).download = some d → s.tasks d = some t →
      Ended (s.clients c) t)
    (hclient : ClientStep E s c a client') (hd : client'.download = some d)
    (ht : s.tasks d = some t) : Ended client' t := by
  cases hclient with
  | unchanged | settled _ | missed _ _ | answered _ _ _ | built _ =>
      exact hall c d t hd ht
  | joined hmissed _ | started hmissed _ =>
      exact .of_ending (h.untouched c (Or.inr hmissed)).2
  | polled hphase hd' =>
      have hd₁ : (s.clients c).download = some d := by
        simpa using hd
      cases hd'.symm.trans hd₁
      exact (hall c d t hd₁ ht).polled (h.consistent d t ht) (h.follows c d hd₁) hphase
        (StreamingBody.polled_pollFrame _ _)

section System

variable [DecidableEq ι]

theorem Whole.step {s s' : State ι} {a : Action ι} (h : Whole E s) (hdel : Delivering s)
    (hstep : Step E s a s') : Whole E s' where
  buffered :=
    hdel.registered.downloads_step (P := fun t _ => Buffered E t) hstep
      (fun c _ => .new (E.key c) c (E.request c))
      (fun d t _ ht hmove hbuf => hbuf.step (hdel.consistent d t ht) hmove) h.buffered
  ended := by
    refine hdel.registered.clients_step (P := fun _ client t _ => Ended client t) hstep ?_ ?_ ?_
    · intro c client' d t hclient hd ht
      exact hdel.ended_client h.ended hclient hd ht
    · intro c hmissed
      exact .of_ending (hdel.untouched c (Or.inr hmissed)).2
    · intro c d t t' _ _ _ hmove hended
      exact hended.step hmove

theorem whole_of_run {s : State ι} {as : List (Action ι)} (hrun : Run (Step E) .init as s) :
    Whole E s := by
  refine hrun.invariant_under (J := Delivering) (I := Whole E) (fun _ _ _ h hstep => h.step hstep)
    (fun _ _ _ hdel h hstep => h.step hdel hstep) .init ⟨?_, ?_⟩
  · simp [State.init]
  · simp [State.init]

end System

end Inflight
end Squiddish
