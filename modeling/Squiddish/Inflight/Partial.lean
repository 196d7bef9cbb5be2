import Squiddish.Inflight.Reuse
import Squiddish.Proxy.Forward

/-!
# Partial — partial and not-modified answers

`Range` and the conditional headers are forwarded, and neither is part of the key: whoever asks for
the same page with the same `Accept-Encoding` joins the download or hits the entry of a request for
some of it.  `AskedFor` says when a client may get such an answer.  When upstream answers a request
by its headers and no answer reaches another client that has not asked for it, every client gets
what it has asked for.
-/

namespace Squiddish
namespace Inflight

open Lib Cache

variable {ι : Type} {E : Env ι}

/-- The `Range` lines of a request. -/
def rangeLines (req : Request) : List HeaderValue :=
  req.headers.getAll "range".toList

def Conditional (req : Request) : Prop :=
  req.headers.getAll "if-none-match".toList ≠ [] ∨
    req.headers.getAll "if-modified-since".toList ≠ []

/-- The client `c` has asked for such an answer to the request of `i`: a part of the page for the
range it is about, and the news that nothing is new for a conditional request. -/
structure AskedFor (E : Env ι) (c i : ι) (resp : Response) : Prop where
  range : resp.status = 206 →
    rangeLines (E.request c) ≠ [] ∧ rangeLines (E.request c) = rangeLines (E.request i)
  conditional : resp.status = 304 → Conditional (E.request c)

/-- Upstream sends 206 only to requests with a range, and 304 only to conditional requests. -/
def Conforming (s : State ι) : Action ι → Prop
  | .respond d resp => ∀ t, s.tasks d = some t →
      (resp.status = 206 → rangeLines (Proxy.newReq t.request) ≠ []) ∧
        (resp.status = 304 → Conditional (Proxy.newReq t.request))
  | _ => True

/-- Every client that has got a status has asked for an answer like this. -/
def AllAskedFor (E : Env ι) (s : State ι) : Prop :=
  ∀ c status, (s.clients c).status = some status →
    ∃ i resp, AnswerTo E s c i resp ∧ resp.status = status ∧ AskedFor E c i resp

/-- Another client than the one whose request is answered has asked for such an answer, too. -/
def OthersAskedFor (E : Env ι) (c i : ι) (resp : Response) : Prop :=
  c ≠ i → AskedFor E c i resp

/-- Upstream conforms, and no answer reaches another client that has not asked for it. -/
def Selective (E : Env ι) (s : State ι) (a : Action ι) : Prop :=
  Conforming s a ∧ Fitting (OthersAskedFor E) E s a

/-- A client whose own request is answered has asked for the answer. -/
theorem askedFor_self {c : ι} {resp : Response}
    (hrange : resp.status = 206 → rangeLines (Proxy.newReq (E.request c)) ≠ [])
    (hconditional : resp.status = 304 → Conditional (Proxy.newReq (E.request c))) :
    AskedFor E c c resp where
  range := by
    intro hstatus
    have hvia : "via".toList ≠ "range".toList := by
      decide
    exact ⟨Proxy.getAll_of_newReq hvia (hrange hstatus), rfl⟩
  conditional := by
    intro hstatus
    have hmatch : "via".toList ≠ "if-none-match".toList := by
      decide
    have hsince : "via".toList ≠ "if-modified-since".toList := by
      decide
    exact (hconditional hstatus).imp (Proxy.getAll_of_newReq hmatch)
      (Proxy.getAll_of_newReq hsince)

/-- The task works on the request of its initiator, who has asked for the answer. -/
def Honoured (E : Env ι) (t : Task ι) : Prop :=
  t.Own E ∧ ∀ resp, t.response = some resp → AskedFor E t.initiator t.initiator resp

theorem Honoured.step {s : State ι} {d : Nat} {a : Action ι} {t t' : Task ι}
    {st st' : DownloadState} (h : Honoured E t) (ht : s.tasks d = some t)
    (hmove : DownloadStep E d a t st t' st') (hconf : Conforming s a) : Honoured E t' := by
  cases hmove with
  | @respond _ _ resp _ =>
      refine ⟨h.1, ?_⟩
      rintro resp' ⟨rfl⟩
      have hanswer := hconf t ht
      rw [h.1.1] at hanswer
      exact askedFor_self hanswer.1 hanswer.2
  | _ =>
      exact h

section System

variable [DecidableEq ι]

/-- In runs where upstream conforms, every initiator has asked for the answer it gets. -/
theorem honoured_of_conforming {s : State ι} {as : List (Action ι)}
    (hrun : Run (Guarded (Step E) Conforming) .init as s) :
    ∀ d t, s.tasks d = some t → Honoured E t := by
  refine hrun.invariant_under (J := Registered)
    (I := fun s => ∀ d t, s.tasks d = some t → Honoured E t)
    (fun _ _ _ h hstep => h.step hstep.1) ?_ .init (by simp [State.init])
  intro s a s' hreg hall hstep
  refine hreg.downloads_step (P := fun t _ => Honoured E t) hstep.1 ?_ ?_ hall
  · intro c _
    exact ⟨⟨rfl, rfl⟩, by simp [Task.new]⟩
  · intro d t t' ht hmove hhonoured
    exact hhonoured.step ht hmove hstep.2

/-- In runs of selective steps every client gets what it has asked for. -/
theorem allAskedFor_of_selective {s : State ι} {as : List (Action ι)}
    (hrun : Run (Guarded (Step E) (Selective E)) .init as s) : AllAskedFor E s := by
  have hself := honoured_of_conforming (hrun.mono fun _ _ _ hstep => ⟨hstep.1, hstep.2.1⟩)
  intro c status hstatus
  rcases fits_of_run (hrun.mono fun _ _ _ hstep => ⟨hstep.1, hstep.2.2⟩) hstatus with
    ⟨i, resp, hanswer, hresp, hothers⟩
  refine ⟨i, resp, hanswer, hresp, ?_⟩
  by_cases hc : c = i
  · subst hc
    rcases hanswer with ⟨d, t, -, ht, rfl, hresp', -⟩ |
      ⟨entry, -, ⟨d, t, ht, rfl, hstored⟩, -⟩
    · exact (hself d t ht).2 resp hresp'
    · exact (hself d t ht).2 resp hstored.response
  · exact hothers hc

end System

/-! ## Two runs -/

/-- The first ten bytes of the page. -/
def firstBytes : HeaderMap :=
  [("range".toList, .ofText "bytes=0-9".toList)]

/-- Two clients ask for the same bytes, and the second gets them from the cache. -/
theorem allAskedFor_of_selective_same :
    ∃ s : State Nat, AllAskedFor (pageEnv fun _ => firstBytes) s ∧
      (s.clients 1).status = some 206 := by
  have hlines : firstBytes.getAll "range".toList ≠ [] := by
    decide
  have hasked : ∀ c i, AskedFor (pageEnv fun _ => firstBytes) c i ⟨206, []⟩ :=
    fun _ _ => ⟨fun _ => ⟨hlines, rfl⟩, by simp⟩
  have hrun : Run (Guarded (Step (pageEnv fun _ => firstBytes))
        (Selective (pageEnv fun _ => firstBytes))) .init
      [.lookup 0, .joinOrStart 0, .fetch 0, .respond 0 ⟨206, []⟩, .bodyEnd 0, .store 0 0,
        .lookup 1] _ :=
    .cons ⟨.lookupMiss rfl rfl, trivial, trivial, trivial⟩ <|
    .cons ⟨.joinOrStart rfl, trivial, (fun _ _ _ _ h => nomatch h), trivial⟩ <|
    .cons ⟨.fetch rfl rfl, trivial, trivial, trivial⟩ <|
    .cons ⟨.respond rfl rfl, (fun t ht => by
      cases ht
      exact ⟨by decide, by simp⟩), (fun c _ _ _ _ _ _ _ => hasked c _), trivial⟩ <|
    .cons ⟨.bodyEnd rfl rfl, trivial, trivial, trivial⟩ <|
    .cons ⟨.store (by decide) rfl rfl, trivial, trivial, fun t resp _ _ c ht hresp _ _ _ _ => by
      cases ht
      cases hresp
      exact hasked c _⟩ <|
    .cons ⟨.lookupStored rfl rfl rfl (by decide) (storedTtl_pageEnv _), trivial, trivial,
      trivial⟩ <|
    .nil _
  exact ⟨_, allAskedFor_of_selective hrun, rfl⟩

/-- The client 0 asks for some bytes, and the client 1 for the page. -/
theorem not_allAskedFor_conforming :
    ¬ ∀ (E : Env Nat) (as : List (Action Nat)) (s : State Nat),
      Run (Guarded (Step E) Conforming) .init as s → AllAskedFor E s := by
  intro h
  have hrun : Run (Guarded (Step (pageEnv fun c => if c = 0 then firstBytes else [])) Conforming)
      .init
      [.lookup 0, .joinOrStart 0, .fetch 0, .respond 0 ⟨206, []⟩, .bodyEnd 0, .store 0 0,
        .lookup 1] _ :=
    .cons ⟨.lookupMiss rfl rfl, trivial⟩ <|
    .cons ⟨.joinOrStart rfl, trivial⟩ <|
    .cons ⟨.fetch rfl rfl, trivial⟩ <|
    .cons ⟨.respond rfl rfl, fun t ht => by
      cases ht
      exact ⟨by decide, by simp⟩⟩ <|
    .cons ⟨.bodyEnd rfl rfl, trivial⟩ <|
    .cons ⟨.store (by decide) rfl rfl, trivial⟩ <|
    .cons ⟨.lookupStored rfl rfl rfl (by decide) (storedTtl_pageEnv _), trivial⟩ <|
    .nil _
  rcases h _ _ _ hrun 1 206 rfl with ⟨i, resp, -, hstatus, hasked⟩
  exact (hasked.range hstatus).1 (by decide)

end Inflight
end Squiddish
