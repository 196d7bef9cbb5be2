import Squiddish.Inflight.Delivery

/-!
# Headers — who learns the response headers of a download

`set_response_meta` sends the headers on a watch channel whose sender is all the registry keeps,
and such a send changes nothing when no receiver is alive.  If every client has left before
upstream answers, the headers are lost: later clients wait until the download ends and then
fail.  When a receiver is alive at that moment (`Heard`), every client of the download learns
the headers or the error of the task.
-/

namespace Squiddish
namespace Inflight

open Lib Cache

variable {ι : Type} {E : Env ι}

/-- Some client is waiting for the headers when upstream answers. -/
def Heard (s : State ι) : Action ι → Prop
  | .respond d _ => 0 < (s.states d).metaTx.receivers
  | _ => True

/-! ## The channel of the headers -/

/-- Once upstream has answered, the channel holds the headers or the error of the task. -/
structure Published (t : Task ι) (st : DownloadState) : Prop where
  value : ∀ resp, t.response = some resp →
    st.metaTx.value = some (.ok (metaOf resp)) ∨
      ∃ e, t.failure = some e ∧ st.metaTx.value = some (.error e.toText)
  reading : t.phase.Reading → t.failure = none

namespace Published

variable {t t' : Task ι} {st st' : DownloadState}

/-- Steps that leave the channel alone. -/
theorem congr (h : Published t st) (hresponse : t'.response = t.response)
    (hfailure : t'.failure = t.failure ∨ t.phase.Reading ∧ ¬ t'.phase.Reading)
    (hreading : t'.phase.Reading → t.phase.Reading ∧ t'.failure = t.failure)
    (hvalue : st'.metaTx.value = st.metaTx.value) : Published t' st' where
  value := by
    intro resp hresp
    rw [hvalue]
    rcases h.value resp (hresponse.symm.trans hresp) with hok | ⟨e, he, herror⟩
    · exact Or.inl hok
    · rcases hfailure with hfailure | ⟨hread, -⟩
      · exact Or.inr ⟨e, hfailure.trans he, herror⟩
      · simp [h.reading hread] at he
  reading := fun hread => (hreading hread).2.trans (h.reading (hreading hread).1)

theorem step {d : Nat} {a : Action ι} (h : Published t st)
    (hmove : DownloadStep E d a t st t' st')
    (hheard : ∀ resp, a = .respond d resp → 0 < st.metaTx.receivers) : Published t' st' := by
  cases hmove with
  | receivers n =>
      exact h.congr rfl (Or.inl rfl) (fun hr => ⟨hr, rfl⟩) rfl
  | fetch hphase =>
      exact h.congr rfl (Or.inl rfl) (fun _ => ⟨Or.inl hphase, rfl⟩) rfl
  | @respond _ _ resp hphase =>
      have hsend : (st.publish (.ok (metaOf resp))).metaTx.value = some (.ok (metaOf resp)) :=
        Watch.value_send_of_pos (hheard resp rfl) _
      refine ⟨?_, fun _ => h.reading (Or.inr (Or.inl hphase))⟩
      rintro resp' ⟨rfl⟩
      exact Or.inl hsend
  | chunk hphase _ _ =>
      exact h.congr rfl (Or.inl rfl) (fun hr => ⟨hr, rfl⟩) rfl
  | oversized hphase =>
      exact h.congr rfl (Or.inr ⟨Or.inr (Or.inr hphase), by simp [TaskPhase.Reading]⟩)
        (by simp [TaskPhase.Reading]) rfl
  | fail hphase =>
      exact h.congr rfl (Or.inr ⟨hphase, by simp [TaskPhase.Reading]⟩)
        (by simp [TaskPhase.Reading]) rfl
  | bodyEnd _ | store _ | storeFailed _ | sendError _ _ | sendComplete _ | panic _
  | completeDownload _ | endTask _ =>
      exact h.congr rfl (Or.inl rfl) (by simp [TaskPhase.Reading]) rfl
  | @publishError _ _ e _ hfailure =>
      refine ⟨?_, by simp [TaskPhase.Reading]⟩
      intro resp hresp
      rcases Watch.value_send st.metaTx (some (.error e.toText)) with hsent | hkept
      · exact Or.inr ⟨e, hfailure, hsent⟩
      · have hvalue : (st.publish (.error e.toText)).metaTx.value = st.metaTx.value := hkept
        rw [hvalue]
        exact h.value resp hresp

end Published

/-! ## The clients that wait -/

/-- A client that waits on an answered download gets the headers, or the error of the task, at
once. -/
def Informed (s : State ι) : Prop :=
  ∀ c d t resp rx initial, (s.clients c).phase = .waiting rx initial →
    (s.clients c).download = some d → s.tasks d = some t → t.response = some resp →
    (s.states d).metaTx.waitFor Option.isSome = .ready (some (.ok (metaOf resp))) ∨
      ∃ e, t.failure = some e ∧
        (s.states d).metaTx.waitFor Option.isSome = .ready (some (.error e.toText))

section System

variable [DecidableEq ι]

/-- When every publication of headers is heard, every client is informed, whenever it joins. -/
theorem informed_of_heard {s : State ι} {as : List (Action ι)}
    (hrun : Run (Guarded (Step E) Heard) .init as s) : Informed s := by
  have hpublished : ∀ d t, s.tasks d = some t → Published t (s.states d) := by
    refine hrun.invariant_under (J := Registered)
      (I := fun s => ∀ d t, s.tasks d = some t → Published t (s.states d)) ?_ ?_ .init ?_
    · intro s a s' h hstep
      exact h.step hstep.1
    · intro s a s' h hall hstep
      refine h.downloads_step hstep.1 ?_ ?_ hall
      · intro c _
        exact ⟨by simp [Task.new], fun _ => rfl⟩
      · intro d t t' _ hmove hpub
        refine hpub.step hmove ?_
        rintro resp rfl
        exact hstep.2
    · simp [State.init]
  intro c d t resp rx initial _ _ ht hresp
  rcases (hpublished d t ht).value resp hresp with hok | ⟨e, he, herror⟩
  · exact Or.inl (by simp [Watch.waitFor, hok])
  · exact Or.inr ⟨e, he, by simp [Watch.waitFor, herror]⟩

/-- What an informed client that stops waiting has got. -/
theorem Informed.awaitMeta {s s' : State ι} (h : Informed s) {c : ι} {d : Nat} {t : Task ι}
    {resp : Response} (hstep : Step E s (.awaitMeta c) s') (hd : (s.clients c).download = some d)
    (ht : s.tasks d = some t) (hresp : t.response = some resp) :
    (∃ rx initial, (s'.clients c).phase = .answered rx initial (metaOf resp)) ∨
      ∃ e, t.failure = some e ∧ (s'.clients c).phase = .refused (.network e.toText) := by
  cases hstep with
  | @awaitMeta _ _ rx initial _ hphase hd' hwait =>
      cases hd'.symm.trans hd
      rcases h c d t resp _ _ hphase hd ht hresp with hok | ⟨e, -, herror⟩
      · rw [hok] at hwait
        cases hwait
        exact Or.inl ⟨rx, initial, by simp [State.setPhase]⟩
      · simp [herror] at hwait
  | awaitError hphase hd' hwait =>
      cases hd'.symm.trans hd
      rcases h c d t resp _ _ hphase hd ht hresp with hok | ⟨e, he, herror⟩
      · simp [hok] at hwait
      · rw [herror] at hwait
        cases hwait
        exact Or.inr ⟨e, he, by simp [State.setPhase]⟩
  | awaitClosed hphase hd' _ hwait =>
      cases hd'.symm.trans hd
      rcases h c d t resp _ _ hphase hd ht hresp with hok | ⟨e, -, herror⟩
      · simp [hok] at hwait
      · simp [herror] at hwait

end System

/-- A client that joins after the headers, while the initiator is still waiting. -/
theorem informed_of_heard_join :
    ∃ s : State Nat, Informed s ∧ ∃ rx initial, (s.clients 1).phase = .waiting rx initial := by
  have hrun : Run (Guarded (Step exampleEnv) Heard) .init
      [.lookup 0, .joinOrStart 0, .fetch 0, .respond 0 ⟨200, []⟩, .disconnect 0, .lookup 1,
        .joinOrStart 1] _ :=
    .cons ⟨.lookupMiss rfl rfl, trivial⟩ <|
    .cons ⟨.joinOrStart rfl, trivial⟩ <|
    .cons ⟨.fetch rfl rfl, trivial⟩ <|
    .cons ⟨.respond rfl rfl, Nat.one_pos⟩ <|
    .cons ⟨.disconnectWaiting rfl rfl, trivial⟩ <|
    .cons ⟨.lookupMiss rfl rfl, trivial⟩ <|
    .cons ⟨.joinOrStart rfl, trivial⟩ <|
    .nil _
  exact ⟨_, informed_of_heard hrun, _, _, rfl⟩

/-- The initiator leaves before upstream answers; a client that joins later waits until the
download is over and then fails. -/
theorem not_informed_unheard :
    ¬ ∀ (as : List (Action Nat)) (s : State Nat), Run (Step exampleEnv) .init as s →
      Informed s := by
  intro h
  have hrun : Run (Step exampleEnv) .init
      [.lookup 0, .joinOrStart 0, .fetch 0, .disconnect 0, .respond 0 ⟨200, []⟩, .lookup 1,
        .joinOrStart 1, .bodyEnd 0, .storeFailed 0, .sendComplete 0, .completeDownload 0] _ :=
    .cons (.lookupMiss rfl rfl) <| .cons (.joinOrStart rfl) <| .cons (.fetch rfl rfl) <|
    .cons (.disconnectWaiting rfl rfl) <| .cons (.respond rfl rfl) <|
    .cons (.lookupMiss rfl rfl) <| .cons (.joinOrStart rfl) <| .cons (.bodyEnd rfl rfl) <|
    .cons (.storeFailed rfl rfl) <| .cons (.sendComplete rfl rfl) <|
    .cons (.completeDownload rfl (Or.inl rfl)) <| .nil _
  rcases h _ _ hrun 1 0 _ ⟨200, []⟩ _ _ rfl rfl rfl rfl with hok | ⟨e, he, -⟩
  · cases hok
  · cases he

end Inflight
end Squiddish
