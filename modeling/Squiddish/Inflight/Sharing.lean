import Squiddish.Inflight.Entitlement

/-!
# Sharing — private responses and the clients that join

A response that is meant for one client is never stored.  The download itself has no such gate:
a client joins by its key alone, before or after the headers are known, and gets whatever comes.
`Separate` is the condition under which no client gets a private response to another client's
request.
-/

namespace Squiddish
namespace Inflight

open Lib Cache

variable {ι : Type} {E : Env ι}

/-- Upstream meant the response for the requesting client only. -/
def Confidential (resp : Response) : Prop :=
  Proxy.isPrivate (Proxy.filterHeaders resp.headers) = true

/-- The cache never holds a private response. -/
theorem stored_of_confidential {t : Task ι} {resp : Response} {now : Nat}
    {h : t.cacheBuf.length < 2 ^ 63} (hresp : t.response = some resp)
    (hconf : Confidential resp) : State.stored E t now h = none := by
  have hnot : cacheable resp = false := Proxy.shouldCacheResponse_of_isPrivate hconf
  simp [State.stored, hresp, hnot]

/-- Clients get private responses to their own requests only. -/
def Discreet (s : State ι) : Prop :=
  ∀ c d t resp, (s.clients c).download = some d → s.tasks d = some t →
    t.response = some resp → Confidential resp → c ≠ t.initiator → ¬ (s.clients c).Obtained

/-- The steps that keep other clients away from a private response: none is waiting when it
arrives, and none joins while its headers can be had. -/
def Separate (E : Env ι) (s : State ι) : Action ι → Prop
  | .respond d resp => Confidential resp →
      ∀ c t rx initial, (s.clients c).download = some d → s.tasks d = some t →
        c ≠ t.initiator → (s.clients c).phase ≠ .waiting rx initial
  | .joinOrStart c => ∀ d t resp, s.downloads (E.key c).hashHex = some d → s.tasks d = some t →
      t.response = some resp → Confidential resp → ∀ m, (s.states d).metaTx.value ≠ some (.ok m)
  | _ => True

/-- A client may get a private response to its own request only. -/
def Private (c initiator : ι) (resp : Response) : Prop :=
  Confidential resp → c = initiator

theorem Separate.suited {s : State ι} {a : Action ι} (h : Separate E s a) :
    Suited Private E s a := by
  cases a with
  | respond d resp =>
      intro c t rx initial hd ht hwait hconf
      by_contra hne
      exact h hconf c t rx initial hd ht hne hwait
  | joinOrStart c =>
      intro d t resp m hd ht hresp hm hconf
      exact absurd hm (h d t resp hd ht hresp hconf m)
  | _ =>
      trivial

section System

variable [DecidableEq ι]

/-- In runs of separate steps private responses stay with the clients they are meant for. -/
theorem discreet_of_separate {s : State ι} {as : List (Action ι)}
    (hrun : Run (Guarded (Step E) (Separate E)) .init as s) : Discreet s := by
  have hentitled : AllEntitled Private s :=
    allEntitled_of_suited (hrun.mono fun _ _ _ hstep => ⟨hstep.1, hstep.2.suited⟩)
  intro c d t resp hd ht hresp hconf hne hobt
  exact hne ((hentitled.entitled c d t hd ht).obtained resp hresp hobt hconf)

end System

/-- A response with `Cache-Control: private`. -/
def privateResponse : Response :=
  { status := 200, headers := [("cache-control".toList, .ofText "private".toList)] }

/-- Anybody may have this one. -/
def openResponse : Response :=
  { status := 200, headers := [] }

theorem not_confidential_open : ¬ Confidential openResponse := by
  rw [Confidential]
  decide

/-- The second client comes when the private download of the first is over, and the third joins the
download of the second. -/
theorem discreet_of_separate_later :
    ∃ s : State Nat, Discreet s ∧ (s.clients 0).Obtained ∧ (s.clients 1).download = some 1 ∧
      (s.clients 2).download = some 1 ∧ (s.clients 2).Obtained := by
  have hrun : Run (Guarded (Step exampleEnv) (Separate exampleEnv)) .init
      [.lookup 0, .joinOrStart 0, .fetch 0, .respond 0 privateResponse, .awaitMeta 0, .build 0,
        .bodyEnd 0, .store 0 0, .sendComplete 0, .completeDownload 0, .lookup 1,
        .joinOrStart 1, .fetch 1, .respond 1 openResponse, .lookup 2, .joinOrStart 2,
        .awaitMeta 2] _ :=
    .cons ⟨.lookupMiss rfl rfl, trivial⟩ <|
    .cons ⟨.joinOrStart rfl, fun _ _ _ h => nomatch h⟩ <|
    .cons ⟨.fetch rfl rfl, trivial⟩ <|
    .cons ⟨.respond rfl rfl, by
      intro _ c t rx initial hd ht hne
      cases ht
      have hc : c ≠ 0 := hne
      simp [State.setPhase, State.joinOrStartDownload, State.init, Client.new, hc] at hd⟩ <|
    .cons ⟨.awaitMeta rfl rfl rfl, trivial⟩ <|
    .cons ⟨.build rfl rfl, trivial⟩ <|
    .cons ⟨.bodyEnd rfl rfl, trivial⟩ <|
    .cons ⟨.store (by decide) rfl rfl, trivial⟩ <|
    .cons ⟨.sendComplete rfl rfl, trivial⟩ <|
    .cons ⟨.completeDownload rfl (Or.inl rfl), trivial⟩ <|
    .cons ⟨.lookupMiss rfl rfl, trivial⟩ <|
    .cons ⟨.joinOrStart rfl, fun _ _ _ h => nomatch h⟩ <|
    .cons ⟨.fetch rfl rfl, trivial⟩ <|
    -- the headers are not private, and so the third client may join
    .cons ⟨.respond rfl rfl, fun hconf => absurd hconf not_confidential_open⟩ <|
    .cons ⟨.lookupMiss rfl rfl, trivial⟩ <|
    .cons ⟨.joinOrStart rfl, fun _ _ _ hd ht hresp hconf => by
      cases hd
      cases ht
      cases hresp
      exact absurd hconf not_confidential_open⟩ <|
    .cons ⟨.awaitMeta rfl rfl rfl, trivial⟩ <|
    .nil _
  exact ⟨_, discreet_of_separate hrun, Or.inr trivial, rfl, rfl, Or.inr trivial⟩

/-- Two clients with different cookies ask for the same page at the same time. -/
theorem not_discreet_join :
    ¬ ∀ (as : List (Action Nat)) (s : State Nat), Run (Step exampleEnv) .init as s →
      Discreet s := by
  intro h
  have hrun : Run (Step exampleEnv) .init
      [.lookup 0, .lookup 1, .joinOrStart 0, .joinOrStart 1, .fetch 0,
        .respond 0 privateResponse, .awaitMeta 1] _ :=
    .cons (.lookupMiss rfl rfl) <| .cons (.lookupMiss rfl rfl) <| .cons (.joinOrStart rfl) <|
    .cons (.joinOrStart rfl) <| .cons (.fetch rfl rfl) <| .cons (.respond rfl rfl) <|
    .cons (.awaitMeta rfl rfl rfl) <| .nil _
  exact h _ _ hrun 1 0 _ privateResponse rfl rfl rfl rfl (by decide) (Or.inr trivial)

end Inflight
end Squiddish
