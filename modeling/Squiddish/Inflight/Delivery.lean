import Squiddish.Inflight.Registry

/-!
# Delivery — what the clients of a download receive

A download's message log is its accumulated chunks followed by at most one final message
(`Consistent`), and a client that has not come to its end holds exactly the rest of them
(`Follows`).  So the frames a client has received are always a prefix of the chunks upstream
delivered.

The end of a body is not as reliable.  A body also ends without an error when its channel
closes, and a channel may close without a final message: the task panics, or a client joins
after the `Error` message has been sent.  `Prompt` excludes the two, and `exact_of_prompt` shows
that in runs of prompt steps only a complete body ends without an error.
-/

namespace Squiddish
namespace Inflight

open Lib Cache

variable {ι : Type} {E : Env ι}

/-! ## Downloads -/

/-- Whether upstream has ended the body, where the phase tells. -/
def TaskPhase.bodyComplete : TaskPhase → Option Bool
  | .received | .succeeded | .completeSent => some true
  | .panicked | .released | .ended => none
  | _ => some false

/-- The live senders: one of the registry and one of the task. -/
def TaskPhase.senders : TaskPhase → Nat
  | .ended => 0
  | .released => 1
  | _ => 2

theorem TaskPhase.Live.senders {phase : TaskPhase} (h : phase.Live) : phase.senders = 2 := by
  cases phase with
  | released =>
      exact absurd rfl h.1
  | ended =>
      exact absurd rfl h.2
  | _ =>
      rfl

/-- The task has not failed and upstream has not ended the body. -/
def TaskPhase.Reading (phase : TaskPhase) : Prop :=
  phase = .spawned ∨ phase = .requested ∨ phase = .streaming

/-- The channels agree with each other and with what upstream delivered. -/
structure Consistent (t : Task ι) (st : DownloadState) : Prop where
  /-- The log is the chunks and at most one final message. -/
  log : st.sender.log = st.accumulated.map .data ∨
    (st.sender.log = st.accumulated.map .data ++ [.complete] ∧ t.bodyComplete = true) ∨
    ∃ text, st.sender.log = st.accumulated.map .data ++ [.error text] ∧
      t.bodyComplete = false ∧ ¬ t.phase.Reading
  running : t.phase.Running → st.sender.log = st.accumulated.map .data
  upstream : st.accumulated <+: t.upstream
  exact : t.phase.Reading ∨ t.bodyComplete = true → st.accumulated = t.upstream
  body : ∀ b, t.phase.bodyComplete = some b → t.bodyComplete = b
  senders : st.sender.senders = t.phase.senders
  capacity : st.sender.capacity = 1024

namespace Consistent

theorem fresh (key : CacheKey) (c : ι) (request : Request) :
    Consistent (Task.new key c request) .new where
  log := Or.inl rfl
  running := fun _ => rfl
  upstream := List.prefix_rfl
  exact := fun _ => rfl
  body := by simp [Task.new, TaskPhase.bodyComplete]
  senders := rfl
  capacity := by decide

/-- A running task moves on without a message. -/
theorem setPhase {t t' : Task ι} {st : DownloadState} (h : Consistent t st)
    (hr : t.phase.Running) (hupstream : t.upstream <+: t'.upstream)
    (hexact : t'.phase.Reading ∨ t'.bodyComplete = true →
      (t.phase.Reading ∨ t.bodyComplete = true) ∧ t'.upstream = t.upstream)
    (hbody : ∀ b, t'.phase.bodyComplete = some b → t'.bodyComplete = b)
    (hsenders : t'.phase.senders = t.phase.senders) : Consistent t' st where
  log := Or.inl (h.running hr)
  running := fun _ => h.running hr
  upstream := h.upstream.trans hupstream
  exact := by
    intro hr'
    rcases hexact hr' with ⟨hr', heq⟩
    exact (h.exact hr').trans heq.symm
  body := hbody
  senders := h.senders.trans hsenders.symm
  capacity := h.capacity

/-- Publishing and the comings and goings of receivers leave the messages alone. -/
theorem congr {t : Task ι} {st st' : DownloadState} (h : Consistent t st)
    (hsender : st'.sender = st.sender) (hacc : st'.accumulated = st.accumulated) :
    Consistent t st' where
  log := by simpa [hsender, hacc] using h.log
  running := by simpa [hsender, hacc] using h.running
  upstream := by simpa [hacc] using h.upstream
  exact := by simpa [hacc] using h.exact
  body := h.body
  senders := by simpa [hsender] using h.senders
  capacity := by simpa [hsender] using h.capacity

/-- The final message is sent on a log of chunks only. -/
theorem report {t t' : Task ι} {st : DownloadState} {chunk : DownloadChunk}
    (h : Consistent t st) (hr : t.phase.Running) (hr' : ¬ t'.phase.Running)
    (hreading : ¬ t'.phase.Reading) (hupstream : t'.upstream = t.upstream)
    (hcomplete : t'.bodyComplete = t.bodyComplete)
    (hchunk : (chunk = .complete ∧ t.bodyComplete = true) ∨
      (∃ text, chunk = .error text) ∧ t.bodyComplete = false)
    (hbody : ∀ b, t'.phase.bodyComplete = some b → t'.bodyComplete = b)
    (hsenders : t'.phase.senders = t.phase.senders) : Consistent t' (st.report chunk) where
  log := by
    have hlog : (st.report chunk).sender.log = st.accumulated.map .data ++ [chunk] := by
      simp [DownloadState.report, h.running hr]
    rcases hchunk with ⟨rfl, hcompl⟩ | ⟨⟨text, rfl⟩, hcompl⟩
    · exact Or.inr (Or.inl ⟨hlog, hcomplete.trans hcompl⟩)
    · exact Or.inr (Or.inr ⟨text, hlog, hcomplete.trans hcompl, hreading⟩)
  running := fun h => absurd h hr'
  upstream := by simpa [hupstream, DownloadState.report] using h.upstream
  exact := by
    intro hcompl
    rcases hcompl with hread | hcompl
    · exact absurd hread hreading
    · exact (h.exact (Or.inr (hcomplete.symm.trans hcompl))).trans hupstream.symm
  body := hbody
  senders := h.senders.trans hsenders.symm
  capacity := h.capacity

/-- The tasks that may still move after the last message. -/
theorem drop {t t' : Task ι} {st st' : DownloadState} (h : Consistent t st)
    (hlog : st'.sender.log = st.sender.log) (hacc : st'.accumulated = st.accumulated)
    (hcapacity : st'.sender.capacity = st.sender.capacity) (hr : ¬ t'.phase.Running)
    (hreading : ¬ t'.phase.Reading) (hbody : t'.phase.bodyComplete = none)
    (hupstream : t'.upstream = t.upstream) (hcomplete : t'.bodyComplete = t.bodyComplete)
    (hsenders : st'.sender.senders = t'.phase.senders) : Consistent t' st' where
  log := by
    rw [hlog, hacc, hcomplete]
    rcases h.log with hlog | hlog | ⟨text, hlog, hcompl, -⟩
    · exact Or.inl hlog
    · exact Or.inr (Or.inl hlog)
    · exact Or.inr (Or.inr ⟨text, hlog, hcompl, hreading⟩)
  running := fun hr' => absurd hr' hr
  upstream := by simpa [hacc, hupstream] using h.upstream
  exact := by
    rintro (hr' | hr')
    · exact absurd hr' hreading
    · rw [hacc, hupstream]
      exact h.exact (Or.inr (hcomplete.symm.trans hr'))
  body := by simp [hbody]
  senders := hsenders
  capacity := hcapacity.trans h.capacity

theorem step {d : Nat} {a : Action ι} {t t' : Task ι} {st st' : DownloadState}
    (h : Consistent t st) (hstep : DownloadStep E d a t st t' st') : Consistent t' st' := by
  cases hstep with
  | receivers n =>
      exact h.congr rfl rfl
  | fetch hphase =>
      have hbody := h.body false (by simp [hphase, TaskPhase.bodyComplete])
      refine h.setPhase ?_ List.prefix_rfl ?_ ?_ ?_
      all_goals simp [hphase, hbody, TaskPhase.Running, TaskPhase.Live, TaskPhase.Reading,
        TaskPhase.bodyComplete, TaskPhase.senders]
  | @respond t st resp hphase =>
      have hbody := h.body false (by simp [hphase, TaskPhase.bodyComplete])
      have h' : Consistent t (st.publish (.ok (metaOf resp))) := h.congr rfl rfl
      refine h'.setPhase ?_ List.prefix_rfl ?_ ?_ ?_
      all_goals simp [hphase, hbody, TaskPhase.Running, TaskPhase.Live, TaskPhase.Reading,
        TaskPhase.bodyComplete, TaskPhase.senders]
  | @chunk t st resp bytes hphase _ _ =>
      -- the chunk goes to the log and to the list in one step, as the source locks both
      have hread : t.phase.Reading := Or.inr (Or.inr hphase)
      have hacc : (st.addChunk bytes).accumulated = (t.receive resp bytes).upstream := by
        simp [DownloadState.addChunk, h.exact (Or.inl hread)]
      have hlog : (st.addChunk bytes).sender.log = (st.addChunk bytes).accumulated.map .data := by
        simp [DownloadState.addChunk,
          h.running (by simp [hphase, TaskPhase.Running, TaskPhase.Live])]
      exact
        { log := Or.inl hlog
          running := fun _ => hlog
          upstream := hacc ▸ List.prefix_rfl
          exact := fun _ => hacc
          body := h.body
          senders := h.senders
          capacity := h.capacity }
  | oversized hphase =>
      have hbody := h.body false (by simp [hphase, TaskPhase.bodyComplete])
      -- the chunk that is too much has been delivered by upstream but goes nowhere
      refine h.setPhase ?_ (List.prefix_append _ _) ?_ ?_ ?_
      all_goals simp [hphase, hbody, TaskPhase.Running, TaskPhase.Live, TaskPhase.Reading,
        TaskPhase.bodyComplete, TaskPhase.senders]
  | bodyEnd hphase =>
      refine h.setPhase ?_ List.prefix_rfl ?_ ?_ ?_
      all_goals simp [hphase, TaskPhase.Running, TaskPhase.Live, TaskPhase.Reading,
        TaskPhase.bodyComplete, TaskPhase.senders]
  | store hphase | storeFailed hphase =>
      have hbody := h.body true (by simp [hphase, TaskPhase.bodyComplete])
      refine h.setPhase ?_ List.prefix_rfl ?_ ?_ ?_
      all_goals simp [hphase, hbody, TaskPhase.Running, TaskPhase.Live, TaskPhase.Reading,
        TaskPhase.bodyComplete, TaskPhase.senders]
  | fail hphase =>
      have hbody := h.body false (by
        rcases hphase with hphase | hphase | hphase <;> simp [hphase, TaskPhase.bodyComplete])
      refine h.setPhase ?_ List.prefix_rfl ?_ ?_ ?_
      all_goals rcases hphase with hphase | hphase | hphase <;>
        simp [hphase, hbody, TaskPhase.Running, TaskPhase.Live, TaskPhase.Reading,
          TaskPhase.bodyComplete, TaskPhase.senders]
  | @publishError t st e hphase _ =>
      have hbody := h.body false (by simp [hphase, TaskPhase.bodyComplete])
      have h' : Consistent t (st.publish (.error e.toText)) := h.congr rfl rfl
      refine h'.setPhase ?_ List.prefix_rfl ?_ ?_ ?_
      all_goals simp [hphase, hbody, TaskPhase.Running, TaskPhase.Live, TaskPhase.Reading,
        TaskPhase.bodyComplete, TaskPhase.senders]
  | sendError hphase _ =>
      have hbody := h.body false (by simp [hphase, TaskPhase.bodyComplete])
      refine h.report ?_ ?_ ?_ rfl rfl (Or.inr ⟨⟨_, rfl⟩, hbody⟩) ?_ ?_
      all_goals simp [hphase, hbody, TaskPhase.Running, TaskPhase.Live, TaskPhase.Reading,
        TaskPhase.bodyComplete, TaskPhase.senders]
  | sendComplete hphase =>
      have hbody := h.body true (by simp [hphase, TaskPhase.bodyComplete])
      refine h.report ?_ ?_ ?_ rfl rfl (Or.inl ⟨rfl, hbody⟩) ?_ ?_
      all_goals simp [hphase, hbody, TaskPhase.Running, TaskPhase.Live, TaskPhase.Reading,
        TaskPhase.bodyComplete, TaskPhase.senders]
  | panic hphase =>
      refine h.setPhase hphase List.prefix_rfl ?_ ?_ ?_
      -- a panic may come before or after the end of the body, and sends no message
      · intro hr
        exact ⟨Or.inr (by simpa [TaskPhase.Reading] using hr), rfl⟩
      · simp [TaskPhase.bodyComplete]
      · simpa [TaskPhase.senders] using (hphase.2.2.2.senders).symm
  | @completeDownload t st hphase =>
      -- the sender of the registry goes; the task holds the other one
      have hsenders : st.sender.senders = 2 := by
        rcases hphase with hphase | hphase | hphase <;>
          simp [h.senders, hphase, TaskPhase.senders]
      refine h.drop rfl rfl rfl ?_ ?_ rfl rfl rfl ?_
      all_goals simp [TaskPhase.Running, TaskPhase.Live, TaskPhase.Reading,
        DownloadState.unregister, Broadcast.dropSender, hsenders, TaskPhase.senders]
  | endTask hphase =>
      refine h.drop rfl rfl rfl ?_ ?_ rfl rfl rfl ?_
      all_goals simp [TaskPhase.Running, TaskPhase.Live, TaskPhase.Reading,
        DownloadState.dropTask, Broadcast.dropSender, h.senders, hphase, TaskPhase.senders]

/-- What is not a chunk is the last message of a log. -/
theorem eq_nil_of_drop_last {bs : List Bytes} {n : Nat} {a : DownloadChunk}
    {rest : List DownloadChunk} (ha : ∀ b, a ≠ .data b)
    (h : (bs.map DownloadChunk.data ++ [a]).drop n = a :: rest) : rest = [] := by
  induction bs generalizing n with
  | nil =>
      cases n with
      | zero =>
          simpa using h.symm
      | succ n =>
          simp at h
  | cons b bs ih =>
      cases n with
      | zero =>
          have hcons : DownloadChunk.data b :: (bs.map .data ++ [a]) = a :: rest := by
            simpa using h
          exact absurd (List.cons.inj hcons).1.symm (ha b)
      | succ n =>
          exact ih (by simpa using h)

theorem mem_log_of_pending {st : DownloadState} {rx : Receiver} {a : DownloadChunk}
    {rest : List DownloadChunk} (hpend : st.sender.pending rx = a :: rest) :
    a ∈ st.sender.log := by
  refine List.mem_of_mem_drop (i := rx.next) ?_
  have hmem : a ∈ st.sender.pending rx := by
    simp [hpend]
  exact hmem

/-- `Complete` is sent for a complete body, as the last message. -/
theorem complete_of_pending {t : Task ι} {st : DownloadState} {rx : Receiver}
    {rest : List DownloadChunk} (h : Consistent t st)
    (hpend : st.sender.pending rx = .complete :: rest) : t.bodyComplete = true ∧ rest = [] := by
  have hmem := mem_log_of_pending hpend
  have hdrop : st.sender.log.drop rx.next = .complete :: rest := hpend
  rcases h.log with hlog | ⟨hlog, hbody⟩ | ⟨text, hlog, -, -⟩
  · simp [hlog] at hmem
  · exact ⟨hbody, eq_nil_of_drop_last (by simp) (hlog ▸ hdrop)⟩
  · simp [hlog] at hmem

/-- `Error` is sent for a body that will never be complete, as the last message. -/
theorem error_of_pending {t : Task ι} {st : DownloadState} {rx : Receiver} {text : Str}
    {rest : List DownloadChunk} (h : Consistent t st)
    (hpend : st.sender.pending rx = .error text :: rest) :
    (t.bodyComplete = false ∧ ¬ t.phase.Reading) ∧ rest = [] := by
  have hmem := mem_log_of_pending hpend
  have hdrop : st.sender.log.drop rx.next = .error text :: rest := hpend
  rcases h.log with hlog | ⟨hlog, -⟩ | ⟨text', hlog, hbody⟩
  · simp [hlog] at hmem
  · simp [hlog] at hmem
  · have : text = text' := by
      simpa [hlog] using hmem
    subst this
    exact ⟨hbody, eq_nil_of_drop_last (by simp) (hlog ▸ hdrop)⟩

end Consistent

/-- A step only appends to the log and to the list, and to both the same data. -/
theorem DownloadStep.grows {d : Nat} {a : Action ι} {t t' : Task ι} {st st' : DownloadState}
    (h : DownloadStep E d a t st t' st') :
    ∃ more, st'.sender.log = st.sender.log ++ more ∧
      st'.accumulated = st.accumulated ++ dataOf more := by
  cases h with
  | @chunk _ _ _ bytes _ _ _ =>
      exact ⟨[.data bytes], rfl, rfl⟩
  | @sendError _ _ e _ _ =>
      exact ⟨[.error e.toText], rfl, by simp [DownloadState.report]⟩
  | sendComplete _ =>
      exact ⟨[.complete], rfl, by simp [DownloadState.report]⟩
  | _ =>
      exact ⟨[], (List.append_nil _).symm, (List.append_nil _).symm⟩

/-! ## Clients -/

/-- What a client has received, and what it can still get while its body has not ended, are
the accumulated chunks. -/
def Follows (client : Client) (st : DownloadState) : Prop :=
  client.received <+: st.accumulated ∧
    match client.phase with
    | .waiting rx initial | .answered rx initial _ =>
        client.received = [] ∧ client.ending = none ∧ rx.next ≤ st.sender.log.length ∧
          initial ++ dataOf (st.sender.pending rx) = st.accumulated
    | .streaming _ body =>
        (body.finished = true → client.ending ≠ none) ∧
          (body.finished = false →
            client.ending = none ∧ body.stream.next ≤ st.sender.log.length ∧
              client.received ++ body.remaining st.sender = st.accumulated)
    | _ => True

namespace Follows

theorem grow {client : Client} {st st' : DownloadState} {more : List DownloadChunk}
    (h : Follows client st) (hlog : st'.sender.log = st.sender.log ++ more)
    (hacc : st'.accumulated = st.accumulated ++ dataOf more) : Follows client st' := by
  have hle : ∀ {n : Nat}, n ≤ st.sender.log.length → n ≤ st'.sender.log.length := by
    intro n hn
    simpa [hlog] using Nat.le_add_right_of_le hn
  have hinit : ∀ {rx : Receiver} {initial : List Bytes},
      client.received = [] ∧ client.ending = none ∧ rx.next ≤ st.sender.log.length ∧
        initial ++ dataOf (st.sender.pending rx) = st.accumulated →
      client.received = [] ∧ client.ending = none ∧ rx.next ≤ st'.sender.log.length ∧
        initial ++ dataOf (st'.sender.pending rx) = st'.accumulated := by
    intro rx initial hrest
    rcases hrest with ⟨hreceived, hending, hnext, heq⟩
    refine ⟨hreceived, hending, hle hnext, ?_⟩
    -- what is appended to the log can still be got, and is appended to the list as well
    rw [Broadcast.pending_of_log_append hnext hlog, hacc, ← heq]
    simp
  refine ⟨h.1.trans (hacc ▸ List.prefix_append _ _), ?_⟩
  have hrest := h.2
  cases hphase : client.phase with
  | waiting rx initial =>
      simp only [hphase] at hrest
      exact hinit hrest
  | answered rx initial m =>
      simp only [hphase] at hrest
      exact hinit hrest
  | streaming m body =>
      simp only [hphase] at hrest
      refine ⟨hrest.1, ?_⟩
      intro hfin
      rcases hrest.2 hfin with ⟨hending, hnext, heq⟩
      refine ⟨hending, hle hnext, ?_⟩
      rw [StreamingBody.remaining, Broadcast.pending_of_log_append hnext hlog, hacc, ← heq]
      simp [StreamingBody.remaining]
  | _ =>
      trivial

/-- A client that leaves keeps what it has received. -/
theorem settled {client : Client} {st : DownloadState} {phase : ClientPhase}
    (h : Follows client st) (hsettled : phase.Settled) :
    Follows { client with phase := phase } st := by
  refine ⟨h.1, ?_⟩
  cases phase with
  | waiting rx initial | answered rx initial m | streaming m body =>
      exact hsettled.elim
  | _ =>
      trivial

theorem missed {client : Client} {st : DownloadState} (h : Follows client st) :
    Follows { client with phase := .missed } st :=
  ⟨h.1, trivial⟩

theorem answered {client : Client} {st : DownloadState} {rx : Receiver} {initial : List Bytes}
    {m : ResponseMeta} (h : Follows client st) (hphase : client.phase = .waiting rx initial) :
    Follows { client with phase := .answered rx initial m } st := by
  have hrest := h.2
  simp only [hphase] at hrest
  exact ⟨h.1, hrest⟩

theorem built {client : Client} {st : DownloadState} {rx : Receiver} {initial : List Bytes}
    {m : ResponseMeta} (h : Follows client st) (hphase : client.phase = .answered rx initial m) :
    Follows { client with phase := .streaming m (.new rx initial) } st := by
  have hrest := h.2
  simp only [hphase] at hrest
  rcases hrest with ⟨hreceived, hending, hnext, heq⟩
  refine ⟨h.1, by simp [StreamingBody.new], ?_⟩
  intro _
  refine ⟨hending, hnext, ?_⟩
  simpa [hreceived, StreamingBody.remaining, StreamingBody.new] using heq

/-- A client that has just joined has the accumulated chunks and sees all later messages. -/
theorem joined {client : Client} {st : DownloadState} (d : Nat) (hreceived : client.received = [])
    (hending : client.ending = none) :
    Follows
      { client with
        phase := .waiting st.sender.subscribe st.accumulated, download := some d } st := by
  refine ⟨?_, hreceived, hending, Nat.le_refl _, ?_⟩
  · simp [hreceived]
  · simp [Broadcast.pending_subscribe]

theorem ended {client : Client} {st : DownloadState} {m : ResponseMeta} {body : StreamingBody}
    {e : Except Str Unit} (h : Follows client st) (hfin : body.finished = true) :
    Follows
      { client with phase := .streaming m body, ending := client.ending.or (some e) } st := by
  refine ⟨h.1, ?_, ?_⟩
  · intro _ hnone
    simp at hnone
  · intro hfin'
    simp [hfin] at hfin'

/-- One poll moves the next frame from what the client can still get to what it has. -/
theorem polled {client : Client} {st : DownloadState} {m : ResponseMeta}
    {body body' : StreamingBody} {r : PollResult} (h : Follows client st)
    (hphase : client.phase = .streaming m body) (hpoll : body.Polled st.sender r body') :
    Follows (client.polled m (r, body')) st := by
  have hrest := h.2
  simp only [hphase] at hrest
  have hframe : ∀ {bytes : Bytes} {body₁ : StreamingBody},
      body.Polled st.sender (.frame bytes) body₁ → body.finished = false →
      body₁.finished = false → body₁.stream.next ≤ st.sender.log.length →
      Follows (client.polled m (.frame bytes, body₁)) st := by
    intro bytes body₁ hp hfin hfin₁ hnext
    rcases hrest.2 hfin with ⟨hending, -, heq⟩
    have heq₁ : (client.received ++ [bytes]) ++ body₁.remaining st.sender = st.accumulated := by
      rw [← heq, StreamingBody.remaining_of_frame hp]
      simp
    refine ⟨⟨_, heq₁⟩, ?_, ?_⟩
    · intro hfin'
      simp [hfin₁] at hfin'
    · intro _
      exact ⟨hending, hnext, heq₁⟩
  cases hpoll with
  | finished hfin =>
      exact h.ended hfin
  | initial hfin hget =>
      rcases hrest.2 hfin with ⟨-, hnext, -⟩
      exact hframe (.initial hfin hget) hfin hfin hnext
  | live hfin hdrained hlag hpend =>
      exact hframe (.live hfin hdrained hlag hpend) hfin hfin
        (Broadcast.next_lt_of_pending_cons hpend)
  | complete _ _ _ _ | error _ _ _ _ | lagged _ _ _ | closed _ _ _ _ _ =>
      exact h.ended rfl
  | empty _ _ _ _ _ =>
      exact ⟨h.1, hrest⟩

/-- A client that has not ended and has nothing left to get has everything. -/
theorem received_of_remaining {client : Client} {st : DownloadState} {m : ResponseMeta}
    {body : StreamingBody} (h : Follows client st) (hphase : client.phase = .streaming m body)
    (hfin : body.finished = false) (hnil : body.remaining st.sender = []) :
    client.received = st.accumulated := by
  have hrest := h.2
  simp only [hphase] at hrest
  rcases hrest.2 hfin with ⟨-, -, heq⟩
  rw [← heq, hnil, List.append_nil]

end Follows

/-! ## The system -/

/-- The invariant of delivery, in any run. -/
structure Delivering (s : State ι) : Prop where
  registered : Registered s
  consistent : ∀ d t, s.tasks d = some t → Consistent t (s.states d)
  untouched : ∀ c, (s.clients c).phase = .arrived ∨ (s.clients c).phase = .missed →
    (s.clients c).received = [] ∧ (s.clients c).ending = none
  follows : ∀ c d, (s.clients c).download = some d → Follows (s.clients c) (s.states d)

namespace Delivering

theorem init : Delivering (State.init : State ι) where
  registered := .init
  consistent := by simp [State.init]
  untouched := by simp [State.init, Client.new]
  follows := by simp [State.init, Client.new]

/-- A client follows its download after its own part of a step. -/
theorem follows_client {s : State ι} {a : Action ι} {c : ι} {client' : Client} {d : Nat}
    {t : Task ι} (h : Delivering s) (hclient : ClientStep E s c a client')
    (hd : client'.download = some d) (ht : s.tasks d = some t) :
    Follows client' (s.states d) := by
  cases hclient with
  | unchanged =>
      exact h.follows c d hd
  | settled hsettled =>
      exact (h.follows c d hd).settled hsettled
  | missed _ _ =>
      exact (h.follows c d hd).missed
  | joined hmissed hdown =>
      rcases h.untouched c (Or.inr hmissed) with ⟨hreceived, hending⟩
      cases hd
      exact .joined _ hreceived hending
  | started _ _ =>
      -- the download has no task before the step
      cases hd
      simp [h.registered.fresh _ (Nat.le_refl _)] at ht
  | answered hphase _ _ =>
      exact (h.follows c d hd).answered hphase
  | built hphase =>
      exact (h.follows c d hd).built hphase
  | polled hphase hd' =>
      have hd₁ : (s.clients c).download = some d := by
        simpa using hd
      cases hd'.symm.trans hd₁
      exact (h.follows c d hd₁).polled hphase (StreamingBody.polled_pollFrame _ _)

variable [DecidableEq ι]

theorem step {s s' : State ι} {a : Action ι} (h : Delivering s) (hstep : Step E s a s') :
    Delivering s' where
  registered := h.registered.step hstep
  consistent :=
    h.registered.downloads_step hstep (fun _ _ => .fresh _ _ _)
      (fun _ _ _ _ hmove hcons => hcons.step hmove) h.consistent
  untouched := by
    intro c hphase
    have hclient := hstep.client c
    revert hphase
    generalize s'.clients c = client' at hclient
    intro hphase
    cases hclient with
    | unchanged =>
        exact h.untouched c hphase
    | missed harrived _ =>
        exact h.untouched c (Or.inl harrived)
    | settled hsettled =>
        simp only at hphase
        rcases hphase with rfl | rfl
        · exact hsettled.elim
        · exact hsettled.elim
    | joined _ _ | started _ _ | answered _ _ _ | built _ | polled _ _ =>
        simp at hphase
  follows := by
    intro c d hd
    -- a client and its download move in two parts: first the client, then the download
    rcases (h.registered.step hstep).attached c d hd with ⟨t, ht⟩
    refine h.registered.clients_step (P := fun _ client _ st => Follows client st) hstep
      (fun _ _ _ _ => h.follows_client) ?_ ?_ c d t hd ht
    · intro c hmissed
      rcases h.untouched c (Or.inr hmissed) with ⟨hreceived, hending⟩
      exact .joined _ hreceived hending
    · intro c d t t' _ _ _ hmove hfollows
      rcases hmove.grows with ⟨more, hlog, hacc⟩
      exact hfollows.grow hlog hacc

theorem of_run {s : State ι} {as : List (Action ι)} (h : Run (Step E) .init as s) :
    Delivering s :=
  h.invariant (fun _ _ _ hdel hstep => hdel.step hstep) .init

end Delivering

/-! ## The end of a body -/

/-- The client will stream, or is streaming and has not come to its end. -/
def Client.Exposed (client : Client) (st : DownloadState) : Prop :=
  match client.phase with
  | .waiting _ _ => ∃ m, st.metaTx.value = some (.ok m)
  | .answered _ _ _ => True
  | .streaming _ body => body.finished = false
  | _ => False

/-- The messages the client's receiver has still to take. -/
def Client.unread (client : Client) (st : DownloadState) : List DownloadChunk :=
  match client.phase with
  | .waiting rx _ | .answered rx _ _ => st.sender.pending rx
  | .streaming _ body => st.sender.pending body.stream
  | _ => []

/-- The steps that leave no client alone with a failed download: a task panics only when its
body is complete or no client is exposed, and no client joins a download between its last
message and its removal unless the body is complete or the headers tell of the failure. -/
def Prompt (E : Env ι) (s : State ι) : Action ι → Prop
  | .panic d => ∀ t, s.tasks d = some t → t.bodyComplete = true ∨
      ∀ c, (s.clients c).download = some d → ¬ (s.clients c).Exposed (s.states d)
  | .joinOrStart c => ∀ d t, s.downloads (E.key c).hashHex = some d → s.tasks d = some t →
      t.phase.Running ∨ t.bodyComplete = true ∨
        ∀ m, (s.states d).metaTx.value ≠ some (.ok m)
  | _ => True

/-- A client of a failed download will be told, and a client whose body has ended without an
error has all of it. -/
structure Closing (client : Client) (t : Task ι) (st : DownloadState) : Prop where
  warned : client.Exposed st → ¬ t.phase.Running → t.bodyComplete = false →
    ∃ text, .error text ∈ client.unread st
  exact : client.ending = some (.ok ()) → t.bodyComplete = true ∧ client.received = t.upstream

theorem Follows.unread_grow {client : Client} {st st' : DownloadState}
    (h : Follows client st) (hexposed : client.Exposed st') (more : List DownloadChunk)
    (hlog : st'.sender.log = st.sender.log ++ more) :
    client.unread st' = client.unread st ++ more := by
  have hrest := h.2
  unfold Client.Exposed at hexposed
  unfold Client.unread
  cases hphase : client.phase with
  | waiting rx initial | answered rx initial m =>
      simp only [hphase] at hrest
      exact Broadcast.pending_of_log_append hrest.2.2.1 hlog
  | streaming m body =>
      simp only [hphase] at hrest hexposed
      exact Broadcast.pending_of_log_append (hrest.2 hexposed).2.1 hlog
  | _ =>
      simp [hphase] at hexposed

namespace Closing

variable {client : Client} {t t' : Task ι} {st st' : DownloadState}

/-- Until the task has sent its last message there is nothing to be told. -/
theorem of_running (h : Closing client t st) (hr : t'.phase.Running)
    (hcomplete : t.bodyComplete = true → t'.bodyComplete = true ∧ t'.upstream = t.upstream) :
    Closing client t' st' where
  warned := fun _ hnot => absurd hr hnot
  exact := by
    intro hending
    rcases h.exact hending with ⟨hcompl, hreceived⟩
    rcases hcomplete hcompl with ⟨hcompl', hupstream⟩
    exact ⟨hcompl', hreceived.trans hupstream.symm⟩

theorem of_complete (h : Closing client t st) (hcomplete' : t'.bodyComplete = true)
    (hupstream : t'.upstream = t.upstream) : Closing client t' st' where
  warned := by simp [hcomplete']
  exact := fun hending => ⟨hcomplete', (h.exact hending).2.trans hupstream.symm⟩

theorem step {d : Nat} {a : Action ι} (h : Closing client t st) (hcons : Consistent t st)
    (hfollows : Follows client st) (hmove : DownloadStep E d a t st t' st')
    (hpanic : a = .panic d → t.bodyComplete = true ∨ ¬ client.Exposed st) :
    Closing client t' st' := by
  cases hmove with
  | receivers n =>
      exact ⟨h.warned, h.exact⟩
  | fetch hphase | respond hphase | store hphase | storeFailed hphase | publishError hphase _ =>
      exact h.of_running (by simp [TaskPhase.Running, TaskPhase.Live]) (fun hc => ⟨hc, rfl⟩)
  | chunk hphase _ _ | oversized hphase | bodyEnd hphase =>
      have hbody := hcons.body false (by simp [hphase, TaskPhase.bodyComplete])
      exact h.of_running (by simp [hphase, TaskPhase.Running, TaskPhase.Live]) (by simp [hbody])
  | fail _ =>
      exact h.of_running (by simp [TaskPhase.Running, TaskPhase.Live]) (fun hc => ⟨hc, rfl⟩)
  | @sendError _ _ e hphase _ =>
      refine ⟨?_, h.exact⟩
      intro hexposed _ _
      refine ⟨e.toText, ?_⟩
      -- the error goes to the log behind all that the client has not read
      rw [hfollows.unread_grow hexposed [.error e.toText] rfl]
      simp
  | sendComplete hphase =>
      have hbody := hcons.body true (by simp [hphase, TaskPhase.bodyComplete])
      exact h.of_complete hbody rfl
  | panic hphase =>
      rcases hpanic rfl with hbody | hexposed
      · exact h.of_complete hbody rfl
      -- nobody is left to be told
      · exact ⟨fun hexposed' => absurd hexposed' hexposed, h.exact⟩
  | completeDownload hphase =>
      have hnot : ¬ t.phase.Running := by
        rcases hphase with hphase | hphase | hphase <;> simp [hphase, TaskPhase.Running]
      exact ⟨fun hexposed _ => h.warned hexposed hnot, h.exact⟩
  | endTask hphase =>
      have hnot : ¬ t.phase.Running := by
        simp [hphase, TaskPhase.Running, TaskPhase.Live]
      exact ⟨fun hexposed _ => h.warned hexposed hnot, h.exact⟩

theorem joined {d : Nat} (hending : client.ending = none)
    (hprompt : t.phase.Running ∨ t.bodyComplete = true ∨
      ∀ m, st.metaTx.value ≠ some (.ok m)) :
    Closing
      { client with
        phase := .waiting st.sender.subscribe st.accumulated, download := some d } t st where
  warned := by
    intro hexposed hnot hbody
    rcases hexposed with ⟨m, hm⟩
    rcases hprompt with hr | hcompl | hvalue
    · exact absurd hr hnot
    · simp [hbody] at hcompl
    · exact absurd hm (hvalue m)
  exact := by simp [hending]

theorem settled {phase : ClientPhase} (h : Closing client t st) (hsettled : phase.Settled) :
    Closing { client with phase := phase } t st where
  warned := by
    intro hexposed
    cases phase with
    | hit entry | refused e | gone =>
        exact hexposed.elim
    | _ =>
        exact hsettled.elim
  exact := h.exact

theorem missed (h : Closing client t st) : Closing { client with phase := .missed } t st where
  warned := fun hexposed => hexposed.elim
  exact := h.exact

theorem answered {rx : Receiver} {initial : List Bytes} {m : ResponseMeta}
    (h : Closing client t st) (hphase : client.phase = .waiting rx initial)
    (hm : st.metaTx.value = some (.ok m)) :
    Closing { client with phase := .answered rx initial m } t st where
  warned := by
    intro _ hnot hbody
    have hwarned := h.warned (by simp [Client.Exposed, hphase, hm]) hnot hbody
    simpa [Client.unread, hphase] using hwarned
  exact := h.exact

theorem built {rx : Receiver} {initial : List Bytes} {m : ResponseMeta}
    (h : Closing client t st) (hphase : client.phase = .answered rx initial m) :
    Closing { client with phase := .streaming m (.new rx initial) } t st where
  warned := by
    intro _ hnot hbody
    have hwarned := h.warned (by simp [Client.Exposed, hphase]) hnot hbody
    simpa [Client.unread, hphase, StreamingBody.new] using hwarned
  exact := h.exact

/-- A poll that ends the body with an error. -/
theorem of_error {m : ResponseMeta} {body : StreamingBody} {text : Str}
    (h : Closing client t st) (hfin : body.finished = true) :
    Closing
      { client with
        phase := .streaming m body
        ending := client.ending.or (some (.error text)) } t st where
  warned := by
    intro hexposed
    simp [Client.Exposed, hfin] at hexposed
  exact := by
    intro hending
    cases hold : client.ending with
    | none =>
        simp [hold] at hending
    | some e =>
        exact h.exact (by simpa [hold] using hending)

/-- A poll that ends the body without an error. -/
theorem of_done {m : ResponseMeta} {body : StreamingBody} (h : Closing client t st)
    (hfin : body.finished = true)
    (hdone : client.ending = none → t.bodyComplete = true ∧ client.received = t.upstream) :
    Closing
      { client with
        phase := .streaming m body
        ending := client.ending.or (some (.ok ())) } t st where
  warned := by
    intro hexposed
    simp [Client.Exposed, hfin] at hexposed
  exact := by
    intro hending
    cases hold : client.ending with
    | none =>
        exact hdone hold
    | some e =>
        exact h.exact (by simpa [hold] using hending)

theorem polled {m : ResponseMeta} {body body' : StreamingBody} {r : PollResult}
    (h : Closing client t st) (hcons : Consistent t st) (hfollows : Follows client st)
    (hphase : client.phase = .streaming m body) (hpoll : body.Polled st.sender r body') :
    Closing (client.polled m (r, body')) t st := by
  have hrest := hfollows.2
  simp only [hphase] at hrest
  have hall : body.finished = false → body.remaining st.sender = [] → t.bodyComplete = true →
      client.received = t.upstream := by
    intro hfin hnil hbody
    rw [← hcons.exact (Or.inr hbody), hfollows.received_of_remaining hphase hfin hnil]
  have hwarned : body.finished = false → ¬ t.phase.Running → t.bodyComplete = false →
      ∃ text, .error text ∈ st.sender.pending body.stream := by
    intro hfin hnot hbody
    have hw := h.warned (by simp [Client.Exposed, hphase, hfin]) hnot hbody
    simpa [Client.unread, hphase] using hw
  have hopen : ∀ {received : List Bytes}, body.finished = false →
      client.ending = some (.ok ()) → t.bodyComplete = true ∧ received = t.upstream := by
    intro received hfin hending
    rcases hrest.2 hfin with ⟨hnone, -, -⟩
    simp [hnone] at hending
  cases hpoll with
  | finished hfin =>
      exact h.of_done hfin (fun hnone => absurd hnone (hrest.1 hfin))
  | initial hfin _ =>
      exact ⟨fun _ hnot hbody => hwarned hfin hnot hbody, hopen hfin⟩
  | live hfin _ _ hpend =>
      refine ⟨?_, hopen hfin⟩
      intro _ hnot hbody
      rcases hwarned hfin hnot hbody with ⟨text, htext⟩
      rw [hpend] at htext
      -- the message read is data, so the error is still among the rest
      refine ⟨text, ?_⟩
      simpa [Client.unread, Client.polled, Broadcast.pending_advance hpend] using htext
  | @complete rest hfin hdrained _ hpend =>
      refine h.of_done rfl ?_
      intro _
      rcases hcons.complete_of_pending hpend with ⟨hbody, hnil⟩
      have hremaining : body.remaining st.sender = [] := by
        simp [StreamingBody.remaining, hpend, hnil, List.drop_eq_nil_of_le hdrained]
      exact ⟨hbody, hall hfin hremaining hbody⟩
  | error _ _ _ _ | lagged _ _ _ =>
      exact h.of_error rfl
  | closed hfin hdrained _ hpend hsenders =>
      refine h.of_done rfl ?_
      intro _
      -- the channel is closed, so the task is not running; and no error is pending
      have hnot : ¬ t.phase.Running := by
        intro hr
        simp [hcons.senders, hr.2.2.2.senders] at hsenders
      have hbody : t.bodyComplete = true := by
        by_contra hne
        rcases hwarned hfin hnot (by simpa using hne) with ⟨text, htext⟩
        simp [hpend] at htext
      have hremaining : body.remaining st.sender = [] := by
        simp [StreamingBody.remaining, hpend, List.drop_eq_nil_of_le hdrained]
      exact ⟨hbody, hall hfin hremaining hbody⟩
  | empty hfin _ _ _ _ =>
      exact ⟨fun _ hnot hbody => hwarned hfin hnot hbody, h.exact⟩

end Closing

/-! ## Exact delivery -/

/-- A client is warned or complete after its own part of a prompt step. -/
theorem Delivering.closing_client {s : State ι} {a : Action ι} {c : ι} {client' : Client}
    {d : Nat} {t : Task ι} (h : Delivering s)
    (hclosing : ∀ c d t, (s.clients c).download = some d → s.tasks d = some t →
      Closing (s.clients c) t (s.states d))
    (hclient : ClientStep E s c a client') (hprompt : Prompt E s a)
    (hd : client'.download = some d) (ht : s.tasks d = some t) :
    Closing client' t (s.states d) := by
  cases hclient with
  | unchanged =>
      exact hclosing c d t hd ht
  | settled hsettled =>
      exact (hclosing c d t hd ht).settled hsettled
  | missed _ _ =>
      exact (hclosing c d t hd ht).missed
  | joined hmissed hdown =>
      rcases h.untouched c (Or.inr hmissed) with ⟨-, hending⟩
      cases hd
      exact .joined hending (hprompt d t hdown ht)
  | started _ _ =>
      cases hd
      simp [h.registered.fresh _ (Nat.le_refl _)] at ht
  | answered hphase hd' hm =>
      cases hd'.symm.trans hd
      exact (hclosing c d t hd ht).answered hphase hm
  | built hphase =>
      exact (hclosing c d t hd ht).built hphase
  | polled hphase hd' =>
      have hd₁ : (s.clients c).download = some d := by
        simpa using hd
      cases hd'.symm.trans hd₁
      exact (hclosing c d t hd₁ ht).polled (h.consistent d t ht) (h.follows c d hd₁) hphase
        (StreamingBody.polled_pollFrame _ _)

section System

variable [DecidableEq ι]

/-- A prompt step keeps every client either warned or complete. -/
theorem Delivering.closing_step {s s' : State ι} {a : Action ι} (h : Delivering s)
    (hclosing : ∀ c d t, (s.clients c).download = some d → s.tasks d = some t →
      Closing (s.clients c) t (s.states d))
    (hstep : Step E s a s') (hprompt : Prompt E s a) :
    ∀ c d t, (s'.clients c).download = some d → s'.tasks d = some t →
      Closing (s'.clients c) t (s'.states d) := by
  refine h.registered.clients_step (P := fun _ => Closing) hstep
    (fun _ _ _ _ hclient => h.closing_client hclosing hclient hprompt) ?_ ?_
  · intro c hmissed
    rcases h.untouched c (Or.inr hmissed) with ⟨-, hending⟩
    exact .joined hending (Or.inl (by simp [Task.new, TaskPhase.Running, TaskPhase.Live]))
  · intro c d t t' hclient hd ht hmove hclosed
    refine hclosed.step (h.consistent d t ht) (h.follows_client hclient hd ht) hmove ?_
    rintro rfl
    generalize s'.clients c = client' at hclient hd ⊢
    cases hclient with
    | unchanged =>
        exact (hprompt t ht).imp_right (fun hnone => hnone c hd)
    | @settled _ phase hsettled =>
        refine Or.inr ?_
        intro hexposed
        cases phase <;> first | exact hsettled.elim | exact hexposed.elim

/-- What the clients have received is exact: a prefix of what upstream delivered, and a body
that ended without an error only when upstream has ended it and the client has all of it. -/
def ExactlyDelivered (s : State ι) : Prop :=
  ∀ c d t, (s.clients c).download = some d → s.tasks d = some t →
    (s.clients c).received <+: t.upstream ∧
      ((s.clients c).ending = some (.ok ()) →
        t.bodyComplete = true ∧ (s.clients c).received = t.upstream)

/-- In any run what a client has received is a prefix of what upstream delivered. -/
theorem received_isPrefix {s : State ι} {as : List (Action ι)} (hrun : Run (Step E) .init as s)
    {c : ι} {d : Nat} {t : Task ι} (hd : (s.clients c).download = some d)
    (ht : s.tasks d = some t) : (s.clients c).received <+: t.upstream := by
  have hdel := Delivering.of_run hrun
  exact (hdel.follows c d hd).1.trans (hdel.consistent d t ht).upstream

/-- In runs of prompt steps delivery is exact. -/
theorem exactlyDelivered_of_prompt {s : State ι} {as : List (Action ι)}
    (hrun : Run (Guarded (Step E) (Prompt E)) .init as s) : ExactlyDelivered s := by
  have hclosing : ∀ c d t, (s.clients c).download = some d → s.tasks d = some t →
      Closing (s.clients c) t (s.states d) := by
    refine hrun.invariant_under (J := Delivering)
      (I := fun s => ∀ c d t, (s.clients c).download = some d → s.tasks d = some t →
        Closing (s.clients c) t (s.states d)) ?_ ?_ .init ?_
    · intro s a s' h hstep
      exact h.step hstep.1
    · intro s a s' h hclosing hstep
      exact h.closing_step hclosing hstep.1 hstep.2
    · simp [State.init]
  intro c d t hd ht
  exact ⟨received_isPrefix hrun.of_guarded hd ht, (hclosing c d t hd ht).exact⟩

end System

/-- A client that joins after the first chunk and reads the body to its end. -/
theorem exactlyDelivered_of_prompt_join :
    ∃ s : State Nat, ExactlyDelivered s ∧
      (s.clients 1).received = [[1], [2]] ∧ (s.clients 1).ending = some (.ok ()) := by
  have hrun : Run (Guarded (Step exampleEnv) (Prompt exampleEnv)) .init
      [.lookup 0, .joinOrStart 0, .fetch 0, .respond 0 ⟨200, []⟩, .chunk 0 [1], .lookup 1,
        .joinOrStart 1, .chunk 0 [2], .awaitMeta 1, .build 1, .bodyEnd 0, .store 0 0,
        .sendComplete 0, .poll 1, .poll 1, .completeDownload 0, .endTask 0, .poll 1] _ :=
    .cons ⟨.lookupMiss rfl rfl, trivial⟩ <|
    .cons ⟨.joinOrStart rfl, fun _ _ h => nomatch h⟩ <|
    .cons ⟨.fetch rfl rfl, trivial⟩ <|
    .cons ⟨.respond rfl rfl, trivial⟩ <|
    .cons ⟨.chunk rfl rfl rfl (by decide), trivial⟩ <|
    .cons ⟨.lookupMiss rfl rfl, trivial⟩ <|
    .cons ⟨.joinOrStart rfl, fun _ _ hd ht => Or.inl (by cases hd; cases ht; decide)⟩ <|
    .cons ⟨.chunk rfl rfl rfl (by decide), trivial⟩ <|
    .cons ⟨.awaitMeta rfl rfl rfl, trivial⟩ <|
    .cons ⟨.build rfl rfl, trivial⟩ <|
    .cons ⟨.bodyEnd rfl rfl, trivial⟩ <|
    .cons ⟨.store (by decide) rfl rfl, trivial⟩ <|
    .cons ⟨.sendComplete rfl rfl, trivial⟩ <|
    .cons ⟨.poll rfl rfl, trivial⟩ <|
    .cons ⟨.poll rfl rfl, trivial⟩ <|
    .cons ⟨.completeDownload rfl (Or.inl rfl), trivial⟩ <|
    .cons ⟨.endTask rfl rfl, trivial⟩ <|
    .cons ⟨.poll rfl rfl, trivial⟩ <|
    .nil _
  exact ⟨_, exactlyDelivered_of_prompt hrun, rfl, rfl⟩

/-- A client that joins a failed download after its last message, when no receiver was left to
take the error from the headers' channel, gets a truncated body that ends without an error. -/
theorem not_exactlyDelivered_late_join :
    ¬ ∀ (as : List (Action Nat)) (s : State Nat),
      Run (Step exampleEnv) .init as s → ExactlyDelivered s := by
  intro h
  have hrun : Run (Step exampleEnv) .init
      [.lookup 0, .joinOrStart 0, .fetch 0, .respond 0 ⟨200, []⟩, .awaitMeta 0, .build 0,
        .chunk 0 [1], .fail 0 (.network "reset".toList), .publishError 0, .sendError 0, .lookup 1,
        .joinOrStart 1, .awaitMeta 1, .build 1, .completeDownload 0, .endTask 0, .poll 1,
        .poll 1] _ :=
    .cons (.lookupMiss rfl rfl) <| .cons (.joinOrStart rfl) <| .cons (.fetch rfl rfl) <|
    .cons (.respond rfl rfl) <| .cons (.awaitMeta rfl rfl rfl) <| .cons (.build rfl rfl) <|
    .cons (.chunk rfl rfl rfl (by decide)) <| .cons (.fail rfl (Or.inr (Or.inr rfl))) <|
    .cons (.publishError rfl rfl rfl) <| .cons (.sendError rfl rfl rfl) <|
    .cons (.lookupMiss rfl rfl) <| .cons (.joinOrStart rfl) <|
    .cons (.awaitMeta rfl rfl rfl) <| .cons (.build rfl rfl) <|
    .cons (.completeDownload rfl (Or.inr (Or.inl rfl))) <| .cons (.endTask rfl rfl) <|
    .cons (.poll rfl rfl) <| .cons (.poll rfl rfl) <| .nil _
  have hending := (h _ _ hrun 1 0 _ rfl rfl).2 rfl
  exact absurd hending.1 (by decide)

end Inflight
end Squiddish
