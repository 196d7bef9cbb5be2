import Squiddish.Inflight.Resources
import Squiddish.Inflight.Simulation

/-!
# Answers — what the handlers send

What is proved of the clients of the system holds of the handlers, since each of them stands for a
client.  A handler of a `GET` or a `HEAD` sends one of three things: the page of an error, an entry
of the cache, or a download as it comes in.
-/

namespace Squiddish
namespace Inflight

open Lib Cache Proxy

variable {ι : Type} {E : Env ι} {w : World ι} {s : State ι} {c : ι}

/-- Upstream has answered the request of the task of `d`, which asks for what the client asks for. -/
structure AnsweredFor (E : Env ι) (w : World ι) (c : ι) (d : Nat) (t : Task ι)
    (resp : Response) : Prop where
  task : w.shared.tasks d = some t
  response : t.response = some resp
  request : SameResource (E.request c) t.request

/-- What the client is sent: when it is no page, it is upstream's. -/
inductive Sent (E : Env ι) (w : World ι) (c : ι) : Thread → Prop
  | page {e : ProxyError} {date : Str} {page : FullResponse} :
      buildErrorPage e date = .ok page → Sent E w c (.answered page)
  | cached {entry : CacheEntry} {now d : Nat} {t : Task ι} {resp : Response} :
      AnsweredFor E w c d t resp → t.bodyComplete = true → entry.status = resp.status →
      entry.headers = (metaOf resp).headers → entry.data = t.upstream.flatten →
      Sent E w c (.answered (buildResponseFromCache entry now))
  | streamed {d : Nat} {head : Head} {body : StreamingBody} {received : List Bytes}
      {ending : Option (Except Str Unit)} {t : Task ι} {resp : Response} :
      AnsweredFor E w c d t resp → buildStreamingResponse (metaOf resp) = .ok head →
      received.flatten <+: t.upstream.flatten →
      Sent E w c (.streaming d head body received ending)

/-- A task that upstream has answered has been spawned. -/
theorem Represents.spawned (h : Represents E w s) {d : Nat} {t : Task ι} {resp : Response}
    (ht : s.tasks d = some t) (hresp : t.response = some resp) : w.shared.tasks d = some t := by
  cases hspawned : w.shared.tasks d with
  | some t' =>
      exact (h.tasks d t' hspawned).symm.trans ht
  | none =>
      rcases h.unspawned d t ht hspawned with ⟨c, -, rfl⟩
      cases hresp

/-- A task or the cache moves, or the thread of a request that reaches the cache. -/
def WorldAction.Seen (E : Env ι) : WorldAction ι → Prop
  | .call c | .reply c | .poll c | .close c => Served E.config.security (E.request c)
  | .move _ => True

instance (E : Env ι) : DecidablePred (WorldAction.Seen E) := fun a =>
  match a with
  | .call c | .reply c | .poll c | .close c =>
      inferInstanceAs (Decidable (Served E.config.security (E.request c)))
  | .move _ => .isTrue trivial

/-- The worlds look the same to everybody whose request reaches the cache, and the others of the
first one have nothing to do with it. -/
structure Indistinct (E : Env ι) (w w' : World ι) : Prop where
  shared : w'.shared = w.shared
  served : ∀ c, Served E.config.security (E.request c) → w'.threads c = w.threads c
  outside : ∀ c, ¬ Served E.config.security (E.request c) → (w.threads c).Outside Unstreamed

theorem Indistinct.init : Indistinct E (World.init E) (World.init E) :=
  ⟨rfl, fun _ _ => rfl, fun _ hserved => outside_handle hserved⟩

variable [DecidableEq ι]

/-- Whatever the client of a request for a page is sent, in any interleaving of the handlers with
each other, the tasks and the cache, is the page of an error or upstream's answer to a request for
the same thing: all of it from the cache, or as much as has come from a download. -/
theorem sent_of_run (hplain : ∀ c, Plain (E.request c)) (hsep : Separating E)
    {as : List (WorldAction ι)} (hrun : Run (WorldStep E) (World.init E) as w)
    (hserved : Served E.config.security (E.request c))
    (hrunning : ∀ p, w.threads c ≠ .running p) (hclosed : w.threads c ≠ .closed) :
    Sent E w c (w.threads c) := by
  rcases reaches_of_run hrun with ⟨bs, s, hs, h, -⟩
  have hmatch := h.threads c
  generalize hth : w.threads c = th at hrunning hclosed hmatch ⊢
  cases hmatch with
  | never hnot _ _ =>
      exact absurd hserved hnot
  | settled _ hout =>
      cases th with
      | running p =>
          exact absurd rfl (hrunning p)
      | streaming d head body received ending =>
          exact hout.elim
      | answered response =>
          rcases hout _ rfl with ⟨e, date, page, hpage, heq⟩
          cases heq
          exact .page hpage
      | closed =>
          exact absurd rfl hclosed
  | lookup _ | hit _ | hitReply _ | missed _ | subscribe _ _ | spawn _ _ | wait _ _ | headers _ _
  | failed _ _ _ | abandoned _ _ _ _ | reply _ _ _ _ _ =>
      exact absurd rfl (hrunning _)
  | @streaming _ d head m body hphase hd hhead =>
      have hm : (s.clients c).responseMeta = some m := by
        simp [Client.responseMeta, hphase]
      have hdata : (s.clients c).data = (s.clients c).received.flatten := by
        simp [Client.data, hphase]
      rcases servedFrom_of_responseMeta hplain hsep hs hm with
        ⟨d', t, resp, hd', ht, rfl, hfrom⟩
      cases hd.symm.trans hd'
      exact .streamed ⟨h.spawned ht hfrom.response, hfrom.response, hfrom.request⟩ hhead
        (hdata ▸ hfrom.data)
  | @answered _ entry now hphase =>
      rcases servedFrom_of_hit hplain hsep hs hphase with ⟨d, t, resp, ht, hfrom⟩
      rcases hfrom.whole entry hphase with ⟨hcomplete, hdata⟩
      have hstatus : entry.status = resp.status := by
        simpa [Client.status, hphase] using hfrom.status
      have hheaders : entry.headers = (metaOf resp).headers := by
        simpa [Client.headers, hphase] using hfrom.headers
      exact .cached ⟨h.spawned ht hfrom.response, hfrom.response, hfrom.request⟩ hcomplete
        hstatus hheaders hdata

theorem sent_of_run_join :
    ∃ (w : World Nat) (head : Head) (body : StreamingBody),
      w.threads 1 = .streaming 0 head body [[104, 105]] none ∧
        Sent exampleEnv w 1 (w.threads 1) := by
  rcases exists_run_exampleEnv with ⟨as, w, hrun, -, head, body, hthread⟩
  exact ⟨w, head, body, hthread, sent_of_run plain_exampleEnv separating_exampleEnv hrun
    served_exampleEnv.2 (by simp [hthread]) (by simp [hthread])⟩

/-! ## Requests that do not reach the cache -/

namespace Indistinct

variable {w' : World ι}

/-- A thread outside moves, and leaves what is shared. -/
theorem skip (h : Indistinct E w w') {c : ι} (hc : ¬ Served E.config.security (E.request c))
    {sh' : Shared ι} {th : Thread} (hshared : sh' = w.shared) (hout : th.Outside Unstreamed) :
    Indistinct E ({ w with shared := sh' }.setThread c th) w' := by
  subst hshared
  refine ⟨h.shared, ?_, ?_⟩
  · intro c' hserved
    have hne : c' ≠ c := by
      rintro rfl
      exact hc hserved
    simpa [hne] using h.served c' hserved
  · intro c' hserved
    by_cases hne : c' = c
    · subst hne
      simpa using hout
    · simpa [hne] using h.outside c' hserved

/-- The thread of a client whose request reaches the cache moves in both worlds. -/
theorem setThread (h : Indistinct E w w') {c : ι} (hc : Served E.config.security (E.request c))
    (sh' : Shared ι) (th : Thread) :
    Indistinct E ({ w with shared := sh' }.setThread c th)
      ({ w' with shared := sh' }.setThread c th) := by
  refine ⟨rfl, ?_, ?_⟩
  · intro c' hserved
    by_cases hne : c' = c
    · subst hne
      simp
    · simpa [hne] using h.served c' hserved
  · intro c' hserved
    have hne : c' ≠ c := by
      rintro rfl
      exact hserved hc
    simpa [hne] using h.outside c' hserved

theorem unseen (h : Indistinct E w w') {w₁ : World ι} {a : WorldAction ι} (ha : ¬ a.Seen E)
    (hstep : WorldStep E w a w₁) : Indistinct E w₁ w' := by
  cases hstep with
  | call hthread hop =>
      have hout := h.outside _ ha
      rw [hthread] at hout
      exact h.skip ha (performs_harmless hout.1.1 hop) ⟨hout.1.2 _, hout.2 _⟩
  | reply hthread =>
      have hout := h.outside _ ha
      rw [hthread] at hout
      exact h.skip ha rfl (outside_ofOutcome hout.2 hout.2)
  | poll hthread | closeStreaming hthread =>
      have hout := h.outside _ ha
      rw [hthread] at hout
      exact hout.elim
  | closeWaiting hthread =>
      have hout := h.outside _ ha
      rw [hthread] at hout
      exact hout.1.1.elim
  | closeSuspended hthread hop =>
      exact h.skip ha rfl trivial
  | move _ _ =>
      exact absurd trivial ha

theorem seen (h : Indistinct E w w') {w₁ : World ι} {a : WorldAction ι} (ha : a.Seen E)
    (hstep : WorldStep E w a w₁) : ∃ w₁', WorldStep E w' a w₁' ∧ Indistinct E w₁ w₁' := by
  rcases w' with ⟨sh, threads⟩
  cases h.shared
  cases hstep with
  | call hthread hop =>
      exact ⟨_, .call ((h.served _ ha).trans hthread) hop, h.setThread ha _ _⟩
  | reply hthread =>
      exact ⟨_, .reply ((h.served _ ha).trans hthread), h.setThread ha _ _⟩
  | poll hthread =>
      exact ⟨_, .poll ((h.served _ ha).trans hthread), h.setThread ha _ _⟩
  | closeWaiting hthread =>
      exact ⟨_, .closeWaiting ((h.served _ ha).trans hthread), h.setThread ha _ _⟩
  | closeSuspended hthread hop =>
      exact ⟨_, .closeSuspended ((h.served _ ha).trans hthread) hop, h.setThread ha _ _⟩
  | closeStreaming hthread =>
      exact ⟨_, .closeStreaming ((h.served _ ha).trans hthread), h.setThread ha _ _⟩
  | move hclient hstep =>
      exact ⟨_, .move hclient hstep, rfl, h.served, h.outside⟩

end Indistinct

/-- Requests that are refused, forwarded or turned into tunnels leave no trace: without their
steps the run is a run still, and everybody else gets what they got. -/
theorem unseen_of_run {as : List (WorldAction ι)} (hrun : Run (WorldStep E) (World.init E) as w) :
    ∃ w', Run (WorldStep E) (World.init E) (as.filter (WorldAction.Seen E)) w' ∧
      w'.shared = w.shared ∧
      ∀ c, Served E.config.security (E.request c) → w'.threads c = w.threads c := by
  have hpurged := hrun.purge (R := Indistinct E) (fun _ _ _ _ ha h hstep => h.unseen ha hstep)
    (fun _ _ _ _ ha h hstep => h.seen ha hstep) .init
  rcases hpurged with ⟨w', hrun', h⟩
  exact ⟨w', hrun', h.shared, h.served⟩

/-- All clients but the first one want to send something. -/
def postEnv : Env Nat :=
  { exampleEnv with
    request := fun c =>
      if c = 0 then exampleEnv.request 0 else { exampleEnv.request c with method := "POST".toList } }

/-- The second one comes while the first one is answered, and its body cannot be read. -/
theorem unseen_of_run_post :
    ∃ w, Run (WorldStep postEnv) (World.init postEnv)
        [.call 0, .call 1, .call 1, .call 0, .reply 1] w ∧
      ∃ w', Run (WorldStep postEnv) (World.init postEnv) [.call 0, .call 0] w' ∧
        w'.shared = w.shared ∧ w'.threads 0 = w.threads 0 := by
  have hserved : Served postEnv.config.security (postEnv.request 0) := by
    decide +kernel
  have hvalid : validateRequest postEnv.config.security (postEnv.request 1) = .ok () := by
    decide +kernel
  have hcacheable : ¬ Cacheable (postEnv.request 1) := by
    decide
  have hpost : (World.init postEnv).threads 1 =
      .running (handlePassthroughRequest postEnv.config.security (postEnv.request 1) >>= finish) :=
    congrArg Thread.running (handle_of_passthrough hvalid hcacheable (by decide))
  have hrun : Run (WorldStep postEnv) (World.init postEnv)
      [.call 0, .call 1, .call 1, .call 0, .reply 1] _ :=
    .cons (.call (threads_init hserved) ⟨rfl, Or.inl rfl⟩) <|
    .cons (@WorldStep.call _ _ postEnv _ 1 .requestBody _ [Except.error []] _ hpost rfl) <|
    .cons (@WorldStep.call _ _ postEnv _ 1 .date _ ([] : Str) _ rfl rfl) <|
    .cons (.call rfl ⟨rfl, rfl⟩) <| .cons (.reply rfl) <| .nil _
  have hfilter : [WorldAction.call 0, .call 1, .call 1, .call 0, .reply 1].filter
      (WorldAction.Seen postEnv) = [.call 0, .call 0] := by
    have hnot : ¬ Served postEnv.config.security (postEnv.request 1) :=
      fun h => hcacheable h.2
    simp [WorldAction.Seen, hserved, hnot]
  rcases unseen_of_run hrun with ⟨w', hrun', hshared, hthreads⟩
  exact ⟨_, hrun, w', hfilter ▸ hrun', hshared, hthreads 0 hserved⟩

end Inflight
end Squiddish
