import Squiddish.Inflight.Delivery

/-!
# Lagging — clients that are slower than upstream

The task never waits for its clients, and the channel keeps the newest 1024 messages.  In a
download that completes, lagging is the only way a poll can fail: `slow_client` shows that a
poll gives an error exactly when the initial chunks are served and more than 1024 messages are
unread, and that a client which is not that far behind can still get everything.
-/

namespace Squiddish
namespace Inflight

open Lib Cache

variable {ι : Type} {E : Env ι}

/-! ## Downloads that can still complete -/

/-- Upstream has ended the body, or may still end it. -/
def Task.Completable (t : Task ι) : Prop :=
  t.phase.Reading ∨ t.bodyComplete = true

theorem DownloadStep.completable {d : Nat} {a : Action ι} {t t' : Task ι}
    {st st' : DownloadState} (h : DownloadStep E d a t st t' st') (ht' : t'.Completable) :
    t.Completable := by
  cases h with
  | receivers n | chunk _ _ _ =>
      exact ht'
  | fetch hphase =>
      exact Or.inl (Or.inl hphase)
  | respond hphase =>
      exact Or.inl (Or.inr (Or.inl hphase))
  | bodyEnd hphase =>
      exact Or.inl (Or.inr (Or.inr hphase))
  | oversized _ | store _ | storeFailed _ | fail _ | publishError _ _ | sendError _ _
  | sendComplete _ | panic _ | completeDownload _ | endTask _ =>
      exact Or.inr (by simpa [Task.Completable, TaskPhase.Reading] using ht')

/-- A poll of a download that can still complete fails only by lagging. -/
theorem pollFrame_error_iff {t : Task ι} {st : DownloadState} {body : StreamingBody}
    (hcons : Consistent t st) (ht : t.Completable) :
    (∃ text, (body.pollFrame st.sender).1 = .error text) ↔
      body.finished = false ∧ body.Drained ∧ body.stream.next + 1024 < st.sender.log.length := by
  have hlags : st.sender.Lags body.stream ↔
      body.stream.next + 1024 < st.sender.log.length := by
    simp [Broadcast.Lags, hcons.capacity]
  rw [← hlags]
  constructor
  · rintro ⟨text, htext⟩
    have hpoll := body.polled_pollFrame st.sender
    rw [htext] at hpoll
    generalize (body.pollFrame st.sender).2 = body' at hpoll
    cases hpoll with
    | lagged hfin hdrained hlag =>
        exact ⟨hfin, hdrained, hlag⟩
    | error _ _ _ hpend =>
        -- an error in the log means that the body never completes
        rcases (hcons.error_of_pending hpend).1 with ⟨hbody, hreading⟩
        rcases ht with hr | hcompl
        · exact absurd hr hreading
        · simp [hbody] at hcompl
  · rintro ⟨hfin, hdrained, hlag⟩
    have hget : body.initialChunks[body.initialIndex]? = none := List.getElem?_eq_none hdrained
    exact ⟨_, by
      simp only [StreamingBody.pollFrame, hfin, hget, Broadcast.recv_of_lags hlag]
      rfl⟩

/-! ## Clients that keep up -/

/-- While something is left to get, a client that does not lag gets the next frame. -/
theorem polled_frame {t : Task ι} {st : DownloadState} {body : StreamingBody} {bytes : Bytes}
    {rest : List Bytes} (hcons : Consistent t st) (hfin : body.finished = false)
    (hlag : ¬ st.sender.Lags body.stream) (hremaining : body.remaining st.sender = bytes :: rest) :
    ∃ body', body.pollFrame st.sender = (.frame bytes, body') ∧
      body'.remaining st.sender = rest ∧ body'.finished = false ∧
      ¬ st.sender.Lags body'.stream := by
  have hdry : body.Drained → dataOf (st.sender.pending body.stream) ≠ [] := by
    intro hdrained hnil
    simp [StreamingBody.remaining, List.drop_eq_nil_of_le hdrained, hnil] at hremaining
  have hpoll := body.polled_pollFrame st.sender
  generalize body.pollFrame st.sender = r at hpoll ⊢
  rcases r with ⟨r, body'⟩
  have hframe : ∀ {b : Bytes}, body.Polled st.sender (.frame b) body' →
      b = bytes ∧ body'.remaining st.sender = rest := by
    intro b hp
    simpa [StreamingBody.remaining_of_frame hp] using hremaining
  cases hpoll with
  | finished hfin' =>
      exact absurd (hfin.symm.trans hfin') (by simp)
  | initial hfin' hget =>
      rcases hframe (.initial hfin' hget) with ⟨rfl, hrest⟩
      exact ⟨_, rfl, hrest, hfin, hlag⟩
  | live hfin' hdrained hlag' hpend =>
      rcases hframe (.live hfin' hdrained hlag' hpend) with ⟨rfl, hrest⟩
      refine ⟨_, rfl, hrest, hfin, ?_⟩
      -- who has read one message more lags less
      intro hlags
      exact hlag (Nat.lt_of_le_of_lt (Nat.add_le_add_right (Nat.le_succ _) _) hlags)
  | complete _ hdrained _ hpend =>
      exact absurd (by simp [hpend, (hcons.complete_of_pending hpend).2]) (hdry hdrained)
  | error _ hdrained _ hpend =>
      exact absurd (by simp [hpend, (hcons.error_of_pending hpend).2]) (hdry hdrained)
  | lagged _ _ hlag' =>
      exact absurd hlag' hlag
  | closed _ hdrained _ hpend _ | empty _ hdrained _ hpend _ =>
      exact absurd (by simp [hpend]) (hdry hdrained)

section System

variable [DecidableEq ι]

/-- A client that does not lag gets all that is left to get by polling. -/
theorem exists_run_polls {s : State ι} {c : ι} {d : Nat} {t : Task ι} {m : ResponseMeta}
    {body : StreamingBody} {left : List Bytes}
    (hcons : Consistent t (s.states d)) (hd : (s.clients c).download = some d)
    (hphase : (s.clients c).phase = .streaming m body) (hfin : body.finished = false)
    (hlag : ¬ (s.states d).sender.Lags body.stream)
    (hleft : body.remaining (s.states d).sender = left) :
    ∃ s', Run (Step E) s (List.replicate left.length (.poll c)) s' ∧
      (s'.clients c).received = (s.clients c).received ++ left ∧
      (s'.clients c).ending = (s.clients c).ending := by
  induction left generalizing s body with
  | nil =>
      exact ⟨s, .nil s, by simp, rfl⟩
  | cons bytes rest ih =>
      rcases polled_frame hcons hfin hlag hleft with ⟨body', hpoll, hleft', hfin', hlag'⟩
      have hstep : Step E s (.poll c)
          (s.setClient c ((s.clients c).polled m (body.pollFrame (s.states d).sender))) :=
        .poll hphase hd
      rw [hpoll] at hstep
      have hclient : (s.setClient c ((s.clients c).polled m (.frame bytes, body'))).clients c =
          (s.clients c).polled m (.frame bytes, body') := by
        simp
      rcases ih (s := s.setClient c ((s.clients c).polled m (.frame bytes, body')))
        hcons (by simpa using hd) (by rw [hclient]; rfl) hfin' hlag' hleft' with
        ⟨s', hrun, hreceived, hending⟩
      rw [hclient] at hreceived hending
      refine ⟨s', .cons hstep hrun, ?_, hending⟩
      rw [hreceived]
      simp [Client.polled]

/-- A download that completes later could be completed before. -/
theorem completable_of_run {s s' : State ι} {as : List (Action ι)} {d : Nat} {t t' : Task ι}
    (hreg : Registered s) (hrun : Run (Step E) s as s') (ht : s.tasks d = some t)
    (ht' : s'.tasks d = some t') (hcompl : t'.Completable) : t.Completable := by
  induction hrun generalizing t with
  | nil s =>
      have : t = t' := by
        simpa [ht] using ht'
      exact this ▸ hcompl
  | cons hstep _ ih =>
      rcases hreg.moves hstep d t ht with ⟨t₁, ht₁, hmove⟩
      exact hmove.completable (ih (hreg.step hstep) ht₁ ht')

/-- In runs in which the body completes, a poll fails exactly when the client is more than 1024
messages behind, and a client that is not can still get all upstream has delivered. -/
theorem slow_client {s s' : State ι} {as bs : List (Action ι)}
    (hrun : Run (Step E) .init as s) (hrest : Run (Step E) s bs s') {c : ι} {d : Nat}
    {t t' : Task ι} {m : ResponseMeta} {body : StreamingBody}
    (hphase : (s.clients c).phase = .streaming m body) (hd : (s.clients c).download = some d)
    (ht : s.tasks d = some t) (ht' : s'.tasks d = some t') (hcomplete : t'.bodyComplete = true) :
    ((∃ text, (body.pollFrame (s.states d).sender).1 = .error text) ↔
        body.finished = false ∧ body.Drained ∧
          body.stream.next + 1024 < (s.states d).sender.log.length) ∧
      (body.finished = false →
        ¬ body.stream.next + 1024 < (s.states d).sender.log.length →
        ∃ n s₁, Run (Step E) s (List.replicate n (.poll c)) s₁ ∧
          (s₁.clients c).received = t.upstream ∧ (s₁.clients c).ending = none) := by
  have hdel := Delivering.of_run hrun
  have hcons := hdel.consistent d t ht
  have hcompl : t.Completable :=
    completable_of_run hdel.registered hrest ht ht' (Or.inr hcomplete)
  refine ⟨pollFrame_error_iff hcons hcompl, ?_⟩
  intro hfin hbehind
  have hlag : ¬ (s.states d).sender.Lags body.stream := by
    simpa [Broadcast.Lags, hcons.capacity] using hbehind
  have hfollows := (hdel.follows c d hd).2
  simp only [hphase] at hfollows
  rcases hfollows.2 hfin with ⟨hending, -, hall⟩
  rcases exists_run_polls (E := E) hcons hd hphase hfin hlag rfl with
    ⟨s₁, hpolls, hreceived, hending₁⟩
  refine ⟨_, s₁, hpolls, ?_, hending₁.trans hending⟩
  rw [hreceived, hall]
  exact hcons.exact hcompl

/-! ## A client that lags -/

/-- Upstream may deliver any number of chunks while no client moves. -/
theorem exists_run_chunks {s : State ι} {d : Nat} {t : Task ι} {resp : Response}
    (bytes : Bytes) (n : Nat) (hreg : Registered s) (ht : s.tasks d = some t)
    (hphase : t.phase = .streaming)
    (hresp : t.response = some resp)
    (hsize : t.totalSize + n * bytes.length ≤ E.config.security.maxBodySize) :
    ∃ s' t', Run (Step E) s (List.replicate n (.chunk d bytes)) s' ∧ s'.clients = s.clients ∧
      s'.tasks d = some t' ∧ t'.phase = .streaming ∧
      (s'.states d).sender.log.length = (s.states d).sender.log.length + n := by
  induction n generalizing s t with
  | zero =>
      exact ⟨s, t, .nil s, rfl, ht, hphase, rfl⟩
  | succ n ih =>
      have hsum : t.totalSize + bytes.length + n * bytes.length ≤
          E.config.security.maxBodySize := by
        have hsucc : (n + 1) * bytes.length = n * bytes.length + bytes.length :=
          Nat.succ_mul n bytes.length
        omega
      have hstep := Step.chunk (E := E) ht hphase hresp
        (Nat.le_trans (Nat.le_add_right _ _) hsum)
      have hl : t.phase.Live := by
        simp [hphase, TaskPhase.Live]
      have hreg' := hreg.step hstep
      -- the chunk goes to the channels of the task itself
      rw [State.addChunk, hreg.withDownload_eq ht hl] at hstep hreg'
      rcases ih (t := t.receive resp bytes) hreg' (by simp) hphase hresp hsum with
        ⟨s', t', hrun, hclients, ht', hphase', hlength⟩
      refine ⟨s', t', .cons hstep hrun, hclients, ht', hphase', ?_⟩
      rw [hlength]
      simp [DownloadState.addChunk]
      omega

end System

/-- A client that joins after the first of two chunks and polls between them. -/
theorem slow_client_join :
    ∃ (s : State Nat) (d : Nat) (body : StreamingBody),
      ((∃ text, (body.pollFrame (s.states d).sender).1 = .error text) ↔
        body.finished = false ∧ body.Drained ∧
          body.stream.next + 1024 < (s.states d).sender.log.length) ∧
      ∃ n s₁, Run (Step exampleEnv) s (List.replicate n (.poll 1)) s₁ ∧
        (s₁.clients 1).received = [[1], [2]] ∧ (s₁.clients 1).ending = none := by
  have hrun : Run (Step exampleEnv) .init
      [.lookup 0, .joinOrStart 0, .fetch 0, .respond 0 ⟨200, []⟩, .chunk 0 [1], .lookup 1,
        .joinOrStart 1, .awaitMeta 1, .build 1, .poll 1, .chunk 0 [2]] _ :=
    .cons (.lookupMiss rfl rfl) <| .cons (.joinOrStart rfl) <| .cons (.fetch rfl rfl) <|
    .cons (.respond rfl rfl) <| .cons (.chunk rfl rfl rfl (by decide)) <|
    .cons (.lookupMiss rfl rfl) <| .cons (.joinOrStart rfl) <|
    .cons (.awaitMeta rfl rfl rfl) <| .cons (.build rfl rfl) <| .cons (.poll rfl rfl) <|
    .cons (.chunk rfl rfl rfl (by decide)) <| .nil _
  have hslow := slow_client hrun (.single (a := .bodyEnd 0) (.bodyEnd rfl rfl)) (c := 1) (d := 0)
    rfl rfl rfl rfl rfl
  exact ⟨_, _, _, hslow.1, hslow.2 rfl (by decide)⟩

/-- An initiator that reads nothing while 1025 chunks arrive. -/
theorem not_forall_pollFrame_ok :
    ¬ ∀ (as bs : List (Action Nat)) (s s' : State Nat) (c : Nat) (d : Nat) (t' : Task Nat)
        (m : ResponseMeta) (body : StreamingBody),
      Run (Step exampleEnv) .init as s → Run (Step exampleEnv) s bs s' →
      (s.clients c).phase = .streaming m body → (s.clients c).download = some d →
      s'.tasks d = some t' → t'.bodyComplete = true →
      ∀ text, (body.pollFrame (s.states d).sender).1 ≠ .error text := by
  intro h
  have hstart : Run (Step exampleEnv) .init
      [.lookup 0, .joinOrStart 0, .fetch 0, .respond 0 ⟨200, []⟩, .awaitMeta 0, .build 0] _ :=
    .cons (.lookupMiss rfl rfl) <| .cons (.joinOrStart rfl) <| .cons (.fetch rfl rfl) <|
    .cons (.respond rfl rfl) <| .cons (.awaitMeta rfl rfl rfl) <| .cons (.build rfl rfl) <| .nil _
  rcases exists_run_chunks (E := exampleEnv) (d := 0) [1] 1025
    (Delivering.of_run hstart).registered rfl rfl rfl (by decide) with
    ⟨s, t, hchunks, hclients, ht, hphase, hlength⟩
  have hrun := hstart.append hchunks
  have hend : Run (Step exampleEnv) s [.bodyEnd 0] _ := .single (.bodyEnd ht hphase)
  have hcons := (Delivering.of_run hrun).consistent 0 t ht
  have hclient : (s.clients 0).phase = .streaming (metaOf ⟨200, []⟩) (.new ⟨0⟩ []) := by
    rw [hclients]
    rfl
  have hbehind : 0 + 1024 < (s.states 0).sender.log.length := by
    rw [hlength]
    exact Nat.lt_of_lt_of_le (by decide) (Nat.le_add_left 1025 _)
  have herror : ∃ text,
      ((StreamingBody.new ⟨0⟩ []).pollFrame (s.states 0).sender).1 = .error text :=
    (pollFrame_error_iff hcons (Or.inl (Or.inr (Or.inr hphase)))).2
      ⟨rfl, Nat.le_refl 0, hbehind⟩
  rcases herror with ⟨text, htext⟩
  exact h _ _ _ _ 0 0 _ _ _ hrun hend hclient (by rw [hclients]; rfl) rfl rfl text htext

end Inflight
end Squiddish
