import Squiddish.Inflight.Delivery

/-!
# Entitlement — which client may get whose answer

A client gets an answer in one of two ways: from a download that it has started or joined, or from
the cache.  Let `Fits c i resp` say that the client `c` may get the answer `resp` to the request of
the client `i`.  This file is about the first way.  It supplies

* `Suited` : the steps that bring a waiting or a joining client no answer it may not get;
* `Entitled` : what holds between a client and its download, kept by every suited step.
-/

namespace Squiddish
namespace Inflight

open Lib Cache

variable {ι : Type} {E : Env ι}

/-! ## What a client has got from a download -/

/-- The client has got the status and the headers, or some of the body. -/
def Client.Obtained (client : Client) : Prop :=
  client.received ≠ [] ∨
    match client.phase with
    | .answered _ _ _ | .streaming _ _ => True
    | _ => False

/-- The status and the headers the client has got. -/
def Client.responseMeta (client : Client) : Option ResponseMeta :=
  match client.phase with
  | .answered _ _ m | .streaming m _ => some m
  | _ => none

theorem Client.obtained_of_responseMeta {client : Client} {m : ResponseMeta}
    (h : client.responseMeta = some m) : client.Obtained := by
  cases hphase : client.phase with
  | answered _ _ _ | streaming _ _ =>
      exact Or.inr (by simp [hphase])
  | _ =>
      simp [responseMeta, hphase] at h

/-- A client that has just joined has got nothing yet. -/
theorem not_obtained_joined {client : Client} (hreceived : client.received = [])
    (rx : Receiver) (initial : List Bytes) (download : Option Nat) :
    ¬ { client with phase := .waiting rx initial, download := download }.Obtained := by
  simp [Client.Obtained, hreceived]

/-- The headers to be had are those of the answer, and there are none before upstream answers. -/
structure Truthful (t : Task ι) (st : DownloadState) : Prop where
  early : t.phase = .spawned ∨ t.phase = .requested → t.response = none
  value : ∀ m, st.metaTx.value = some (.ok m) → ∃ resp, t.response = some resp ∧ m = metaOf resp

/-- Publishing an error does not bring headers. -/
theorem value_of_publishError {st : DownloadState} {text : Str} {m : ResponseMeta}
    (h : (st.publish (.error text)).metaTx.value = some (.ok m)) :
    st.metaTx.value = some (.ok m) := by
  rcases Watch.value_send st.metaTx (some (.error text)) with hsent | hkept
  · have h' : (st.metaTx.send (some (.error text))).value = some (.ok m) := h
    simp [hsent] at h'
  · exact hkept.symm.trans h

namespace Truthful

variable {t t' : Task ι} {st st' : DownloadState}

theorem congr (h : Truthful t st) (hearly : t'.phase = .spawned ∨ t'.phase = .requested →
      t.phase = .spawned ∨ t.phase = .requested)
    (hresponse : t'.response = t.response)
    (hvalue : ∀ m, st'.metaTx.value = some (.ok m) → st.metaTx.value = some (.ok m)) :
    Truthful t' st' where
  early := fun hphase => hresponse.trans (h.early (hearly hphase))
  value := fun m hm => hresponse.symm ▸ h.value m (hvalue m hm)

theorem new (key : CacheKey) (c : ι) (req : Request) : Truthful (Task.new key c req) .new where
  early := fun _ => rfl
  value := by simp [DownloadState.new, Watch.channel]

theorem step {d : Nat} {a : Action ι} (h : Truthful t st)
    (hmove : DownloadStep E d a t st t' st') : Truthful t' st' := by
  cases hmove with
  | receivers n | chunk _ _ _ =>
      exact h.congr id rfl (fun _ => id)
  | fetch hphase =>
      exact h.congr (fun _ => Or.inl hphase) rfl (fun _ => id)
  | @respond _ _ resp _ =>
      refine ⟨by simp, fun m hm => ⟨resp, rfl, ?_⟩⟩
      rcases Watch.value_send st.metaTx (some (.ok (metaOf resp))) with hsent | hkept
      · have hm' := hsent.symm.trans hm
        simpa using hm'.symm
      · -- nobody was there to hear it, and nothing had been published before
        rcases h.value m (hkept.symm.trans hm) with ⟨resp', hresp', -⟩
        have hnone := h.early (Or.inr ‹_›)
        simp [hnone] at hresp'
  | oversized _ | bodyEnd _ | store _ | storeFailed _ | fail _ | sendError _ _
  | sendComplete _ | panic _ | completeDownload _ | endTask _ =>
      exact h.congr (by simp) rfl (fun _ => id)
  | publishError _ _ =>
      exact h.congr (by simp) rfl (fun _ => value_of_publishError)

end Truthful

/-! ## Joined downloads -/

section Joined

variable (Fits : ι → ι → Response → Prop)

/-- No client waits for an answer that it may not get when it comes, and none joins a download
whose headers are such an answer. -/
def Suited (E : Env ι) (s : State ι) : Action ι → Prop
  | .respond d resp => ∀ c t rx initial, (s.clients c).download = some d → s.tasks d = some t →
      (s.clients c).phase = .waiting rx initial → Fits c t.initiator resp
  | .joinOrStart c => ∀ d t resp m, s.downloads (E.key c).hashHex = some d → s.tasks d = some t →
      t.response = some resp → (s.states d).metaTx.value = some (.ok m) → Fits c t.initiator resp
  | _ => True

/-- What holds between the client `c` and its download. -/
structure Entitled (c : ι) (client : Client) (t : Task ι) (st : DownloadState) : Prop where
  unanswered : t.response = none → ¬ client.Obtained
  responseMeta : ∀ m, client.responseMeta = some m →
    ∃ resp, t.response = some resp ∧ m = metaOf resp
  obtained : ∀ resp, t.response = some resp → client.Obtained → Fits c t.initiator resp
  waiting : ∀ resp rx initial m, t.response = some resp → client.phase = .waiting rx initial →
    st.metaTx.value = some (.ok m) → Fits c t.initiator resp

variable {Fits} {c : ι} {client client' : Client} {t t' : Task ι} {st st' : DownloadState}

namespace Entitled

/-- Steps of the task that publish no headers. -/
theorem congr (h : Entitled Fits c client t st) (hresponse : t'.response = t.response)
    (hinitiator : t'.initiator = t.initiator)
    (hvalue : ∀ m, st'.metaTx.value = some (.ok m) → st.metaTx.value = some (.ok m)) :
    Entitled Fits c client t' st' where
  unanswered := fun hnone => h.unanswered (hresponse.symm.trans hnone)
  responseMeta := fun m hm => hresponse.symm ▸ h.responseMeta m hm
  obtained := fun resp hresp hobt =>
    hinitiator ▸ h.obtained resp (hresponse.symm.trans hresp) hobt
  waiting := fun resp rx initial m hresp hwait hm =>
    hinitiator ▸ h.waiting resp rx initial m (hresponse.symm.trans hresp) hwait (hvalue m hm)

theorem step {d : Nat} {a : Action ι} (h : Entitled Fits c client t st) (hans : Truthful t st)
    (hmove : DownloadStep E d a t st t' st')
    (hrespond : ∀ resp rx initial, a = .respond d resp → client.phase = .waiting rx initial →
      Fits c t.initiator resp) : Entitled Fits c client t' st' := by
  cases hmove with
  | @respond _ _ resp hphase =>
      -- the download had no answer before, so the client has nothing from it yet
      have hnot := h.unanswered (hans.early (Or.inr hphase))
      refine ⟨by simp, fun m hm => absurd (Client.obtained_of_responseMeta hm) hnot,
        fun _ _ hobt => absurd hobt hnot, ?_⟩
      rintro resp' rx initial m ⟨rfl⟩ hwait _
      exact hrespond resp rx initial rfl hwait
  | publishError _ _ =>
      exact h.congr rfl rfl (fun _ => value_of_publishError)
  | _ =>
      exact h.congr rfl rfl (fun _ => id)

/-- The client gets nothing and waits no more than before. -/
theorem setClient (h : Entitled Fits c client t st) (hobt : client'.Obtained → client.Obtained)
    (hmeta : ∀ m, client'.responseMeta = some m → client.responseMeta = some m)
    (hwait : ∀ rx initial, client'.phase = .waiting rx initial →
      client.phase = .waiting rx initial) : Entitled Fits c client' t st where
  unanswered := fun hnone ho => h.unanswered hnone (hobt ho)
  responseMeta := fun m hm => h.responseMeta m (hmeta m hm)
  obtained := fun resp hresp ho => h.obtained resp hresp (hobt ho)
  waiting := fun resp rx initial m hresp hphase =>
    h.waiting resp rx initial m hresp (hwait rx initial hphase)

end Entitled

/-- The invariant after the client's own part of a step. -/
theorem Delivering.entitled_client {s : State ι} {a : Action ι} {d : Nat} (h : Delivering s)
    (hall : ∀ c d t, (s.clients c).download = some d → s.tasks d = some t →
      Entitled Fits c (s.clients c) t (s.states d))
    (hans : Truthful t (s.states d)) (hsuited : Suited Fits E s a)
    (hclient : ClientStep E s c a client') (hd : client'.download = some d)
    (ht : s.tasks d = some t) : Entitled Fits c client' t (s.states d) := by
  cases hclient with
  | unchanged =>
      exact hall c d t hd ht
  | @settled _ phase hsettled =>
      refine (hall c d t hd ht).setClient ?_ ?_ ?_
      -- a settled client keeps what it has received and gets no more headers
      · rintro (hreceived | hphase)
        · exact Or.inl hreceived
        · cases phase <;> first | exact hsettled.elim | exact hphase.elim
      · intro m hm
        cases phase <;> first | exact hsettled.elim | simp [Client.responseMeta] at hm
      · rintro rx initial rfl
        exact hsettled.elim
  | missed _ _ =>
      refine (hall c d t hd ht).setClient ?_ (by simp [Client.responseMeta]) (by simp)
      rintro (hreceived | hphase)
      · exact Or.inl hreceived
      · exact hphase.elim
  | joined hmissed hdown =>
      -- whoever joins has obtained nothing; the headers it may find there are suited to it
      have hnot := not_obtained_joined (h.untouched c (Or.inr hmissed)).1
      cases hd
      exact ⟨fun _ => hnot _ _ _, by simp [Client.responseMeta],
        fun _ _ hobt => absurd hobt (hnot _ _ _),
        fun resp _ _ m hresp _ hm => hsuited d t resp m hdown ht hresp hm⟩
  | started _ _ =>
      -- a download that is just started has no task yet
      cases hd
      simp [h.registered.fresh _ (Nat.le_refl _)] at ht
  | @answered _ rx initial m hphase hd' hm =>
      -- the headers it waits for are those of the answer of the task
      cases hd'.symm.trans hd
      rcases hans.value m hm with ⟨resp, hresp, hmeta⟩
      refine ⟨by simp [hresp], ?_, ?_, by simp⟩
      · intro m' hm'
        cases hm'
        exact ⟨resp, hresp, hmeta⟩
      · intro resp' hresp' _
        exact (hall c d t hd ht).waiting resp' rx initial m hresp' hphase hm
  | built hphase =>
      refine (hall c d t hd ht).setClient (fun _ => Or.inr ?_) ?_ (by simp)
      · simp [hphase]
      · simp [Client.responseMeta, hphase]
  | polled hphase _ =>
      have hd₁ : (s.clients c).download = some d := by
        simpa using hd
      refine (hall c d t hd₁ ht).setClient (fun _ => Or.inr ?_) ?_ (by simp)
      · simp [hphase]
      · simp [Client.responseMeta, hphase]

/-- The invariant of a run of suited steps. -/
structure AllEntitled (Fits : ι → ι → Response → Prop) (s : State ι) : Prop where
  truthful : ∀ d t, s.tasks d = some t → Truthful t (s.states d)
  attached : ∀ c m, (s.clients c).responseMeta = some m → ∃ d, (s.clients c).download = some d
  entitled : ∀ c d t, (s.clients c).download = some d → s.tasks d = some t →
    Entitled Fits c (s.clients c) t (s.states d)

theorem AllEntitled.init : AllEntitled Fits (State.init : State ι) where
  truthful := by simp [State.init]
  attached := by simp [State.init, Client.new, Client.responseMeta]
  entitled := by simp [State.init, Client.new]

/-- A client that has headers has a download. -/
theorem ClientStep.attached {s : State ι} {a : Action ι} {m : ResponseMeta}
    (hclient : ClientStep E s c a client')
    (hall : ∀ m, (s.clients c).responseMeta = some m → ∃ d, (s.clients c).download = some d)
    (hm : client'.responseMeta = some m) : ∃ d, client'.download = some d := by
  cases hclient with
  | unchanged =>
      exact hall m hm
  | @settled _ phase hsettled =>
      cases phase <;> first | exact hsettled.elim | simp [Client.responseMeta] at hm
  | missed _ _ =>
      simp [Client.responseMeta] at hm
  | joined _ _ | started _ _ =>
      exact ⟨_, rfl⟩
  | answered _ hd _ =>
      exact ⟨_, hd⟩
  | @built _ _ m' hphase =>
      exact hall m' (by simp [Client.responseMeta, hphase])
  | polled _ hd =>
      exact ⟨_, by simpa using hd⟩

variable [DecidableEq ι]

theorem AllEntitled.step {s s' : State ι} {a : Action ι} (h : AllEntitled Fits s)
    (hdel : Delivering s) (hstep : Step E s a s') (hsuited : Suited Fits E s a) :
    AllEntitled Fits s' where
  truthful :=
    hdel.registered.downloads_step hstep (fun c _ => .new (E.key c) c (E.request c))
      (fun _ _ _ _ hmove hans => hans.step hmove) h.truthful
  attached := fun c _ hm => (hstep.client c).attached (h.attached c) hm
  entitled := by
    refine hdel.registered.clients_step (P := Entitled Fits) hstep ?_ ?_ ?_
    · intro c client' d t hclient hd ht
      exact hdel.entitled_client h.entitled (h.truthful d t ht) hsuited hclient hd ht
    -- a client that starts a download starts with nothing
    · intro c hmissed
      have hnot := not_obtained_joined (hdel.untouched c (Or.inr hmissed)).1
      exact ⟨fun _ => hnot _ _ _, by simp [Client.responseMeta], by simp [Task.new],
        by simp [Task.new]⟩
    · intro c d t t' hclient hd ht hmove hentitled
      refine hentitled.step (h.truthful d t ht) hmove ?_
      rintro resp rx initial rfl hwait
      -- an answer arrives while the client waits: this is the step the condition is about
      generalize s'.clients c = client' at hclient hd hwait
      cases hclient with
      | unchanged =>
          exact hsuited c t rx initial hd ht hwait
      | settled hsettled =>
          cases hwait
          exact hsettled.elim

/-- In runs of suited steps every client gets answers from its download that it may get. -/
theorem allEntitled_of_suited {s : State ι} {as : List (Action ι)}
    (hrun : Run (Guarded (Step E) (Suited Fits E)) .init as s) : AllEntitled Fits s := by
  refine hrun.invariant_under (J := Delivering) (I := AllEntitled Fits) ?_ ?_ .init .init
  · intro s a s' h hstep
    exact h.step hstep.1
  · intro s a s' hdel h hstep
    exact h.step hdel hstep.1 hstep.2

end Joined

end Inflight
end Squiddish
