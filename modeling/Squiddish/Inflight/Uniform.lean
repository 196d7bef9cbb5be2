import Squiddish.Cache.Restarts
import Squiddish.Inflight.Bodies
import Squiddish.Inflight.Reuse
import Squiddish.Proxy.Respond

/-!
# Uniform — the response a client gets does not depend on the way it comes

`forward_request_full` passes a response on as it is.  The clients of a download, be it their own or
one they have joined, get a head that is built from the published metadata and a stream; later ones
get what is built from the cache entry, and an entry may have been read back from the disk.
-/

namespace Squiddish
namespace Inflight

open Lib Cache Proxy

variable {ι : Type} {E : Env ι} {S : Serde} {resp : Response}

/-! ## The property -/

/-- The two responses have the same status, headers and body, apart from the cache headers. -/
structure SameResponse (built full : FullResponse) : Prop where
  status : built.status = full.status
  headers : SameHeaders built.headers full.headers
  body : built.body = full.body

/-- `forward_request_full` would return `full` for the answer the task has got. -/
def Forwarded (E : Env ι) (resp : Response) (t : Task ι) (full : FullResponse) : Prop :=
  forwardRequestFull E.config.security.maxBodySize resp t.upstream = .ok full

/-- Every client that has got something of the answer `resp` has got what
`forward_request_full` would return for it. -/
structure Uniform (S : Serde) (E : Env ι) (resp : Response) (s : State ι) : Prop where
  head : ∀ c d t m, (s.clients c).download = some d → s.tasks d = some t →
    t.response = some resp → (s.clients c).responseMeta = some m →
    ∃ head, buildStreamingResponse m = .ok head ∧ head.status = resp.status ∧
      SameHeaders head.headers ((filterHeaders resp.headers).append "via".toList viaValue)
  body : ∀ c d t, (s.clients c).download = some d → s.tasks d = some t →
    t.response = some resp → t.bodyComplete = true → (s.clients c).ending = some (.ok ()) →
    ∃ full, Forwarded E resp t full ∧ (s.clients c).received.flatten = full.body
  hit : ∀ c entry, (s.clients c).phase = .hit entry → ∃ i resp', StoredFor E s entry i resp'
  memory : ∀ d t entry now, s.tasks d = some t → t.Stored E resp entry →
    ∃ full, Forwarded E resp t full ∧ SameResponse (buildResponseFromCache entry now) full
  disk : ∀ d t entry now, s.tasks d = some t → t.Stored E resp entry →
    ∀ maxSize start key found ops u, Run (CacheStep S) (OpenCache.fresh maxSize start) ops u →
      lastAccepted S maxSize key ops = some entry → lookup S u key = .ok (some found) →
      ∃ full, Forwarded E resp t full ∧ SameResponse (buildResponseFromCache found now) full

/-! ## Each way of its own -/

/-- A whole body is within the limit, and what is forwarded of it is known. -/
theorem Buffered.forwarded {t : Task ι} (h : Buffered E t) (hcomplete : t.bodyComplete = true)
    (resp : Response) :
    Forwarded E resp t
      { status := resp.status
        headers := (filterHeaders resp.headers).append "via".toList viaValue
        body := t.upstream.flatten } := by
  rcases h.size (Or.inr hcomplete) with ⟨hsize, hle⟩
  exact forwardRequestFull_of_le (hsize ▸ hle)

/-- A head is built for a legal answer. -/
theorem streamed_of_textOnly (hlegal : Legal resp) (htext : TextOnly resp) :
    ∃ head, buildStreamingResponse (metaOf resp) = .ok head ∧ head.status = resp.status ∧
      SameHeaders head.headers ((filterHeaders resp.headers).append "via".toList viaValue) :=
  ⟨_, buildStreamingResponse_legal hlegal, rfl, sameHeaders_streamed_iff.2 htext⟩

theorem textOnly_of_streamed (hlegal : Legal resp)
    (h : ∃ head, buildStreamingResponse (metaOf resp) = .ok head ∧ head.status = resp.status ∧
      SameHeaders head.headers ((filterHeaders resp.headers).append "via".toList viaValue)) :
    TextOnly resp := by
  rcases h with ⟨head, hbuilt, -, hsame⟩
  have hhead := (buildStreamingResponse_legal hlegal).symm.trans hbuilt
  cases hhead
  exact sameHeaders_streamed_iff.1 hsame

/-- A response is built from what was stored of a legal answer. -/
theorem Task.Stored.sameResponse {t : Task ι} {entry : CacheEntry} (h : t.Stored E resp entry)
    (hbuffered : Buffered E t) (hlegal : Legal resp) (htext : TextOnly resp) (now : Nat) :
    ∃ full, Forwarded E resp t full ∧ SameResponse (buildResponseFromCache entry now) full := by
  rcases h.entry_eq with ⟨hcacheable, hstatus, hheaders, hdata⟩
  rcases buildResponseFromCache_legal hlegal hstatus hheaders now with ⟨ttl, httl, hbuilt⟩
  refine ⟨_, hbuffered.forwarded h.complete resp, ?_⟩
  rw [hbuilt]
  refine ⟨rfl, (sameHeaders_hit_iff httl).2 htext, ?_⟩
  exact hdata.trans (hbuffered.buffer (Or.inr h.complete) resp h.response hcacheable)

/-! ## All runs -/

section System

variable [DecidableEq ι]

theorem uniform_of_textOnly (hS : S.NonEmpty) (hround : S.RoundTrip) (hlegal : Legal resp)
    (htext : TextOnly resp) {s : State ι} {as : List (Action ι)}
    (hrun : Run (Step E) .init as s) : Uniform S E resp s := by
  have hwhole : Whole E s := whole_of_run hrun
  have hentitled : AllEntitled (fun _ _ _ => True) s := by
    refine allEntitled_of_suited (E := E) (hrun.mono fun _ a _ hstep => ⟨hstep, ?_⟩)
    cases a <;> simp [Suited]
  have hreusing : Reusing (fun _ _ _ => True) E s := by
    refine reusing_of_preserving (hrun.mono fun _ a _ hstep => ⟨hstep, ?_⟩)
    cases a <;> simp [Preserving]
  refine ⟨?_, ?_, ?_, ?_, ?_⟩
  · intro c d t m hd ht hresp hm
    rcases (hentitled.entitled c d t hd ht).responseMeta m hm with ⟨resp', hresp', rfl⟩
    cases hresp.symm.trans hresp'
    exact streamed_of_textOnly hlegal htext
  · intro c d t hd ht hresp hcomplete hending
    refine ⟨_, (hwhole.buffered d t ht).forwarded hcomplete resp, ?_⟩
    rw [((hwhole.ended c d t hd ht) hending).2 hcomplete]
  · intro c entry hhit
    rcases hreusing.hit c entry hhit with ⟨i, resp', hfor, -, -⟩
    exact ⟨i, resp', hfor⟩
  · intro d t entry now ht hstored
    exact hstored.sameResponse (hwhole.buffered d t ht) hlegal htext now
  · intro d t entry now ht hstored maxSize start key found ops u hdisk hlast hfound
    -- what is read back is what was put
    rcases (refinesFifo_of_run hS hround hdisk).found key with ⟨found', hlookup, -, -, hall⟩
    have heq : some found = found' := Except.ok.inj (hfound.symm.trans hlookup)
    have hentry := hlast.symm.trans (hall found heq.symm)
    cases hentry
    exact hstored.sameResponse (hwhole.buffered d t ht) hlegal htext now

/-- The first client starts a download. -/
theorem started_run (E : Env ι) (c : ι) :
    ∃ s, Run (Step E) .init [.lookup c, .joinOrStart c] s ∧
      (s.clients c).phase = .waiting DownloadState.new.sender.subscribe [] ∧
      (s.clients c).download = some 0 ∧
      s.tasks 0 = some (Task.new (E.key c) c (E.request c)) ∧ s.states 0 = .new ∧
      s.downloads (E.key c).hashHex = some 0 := by
  have hmissed : ((State.init.setPhase c .missed).clients c).phase = .missed := by
    simp [State.setPhase]
  refine ⟨_, .cons (.lookupMiss rfl rfl) (.cons (.joinOrStart hmissed) (.nil _)), ?_, ?_, ?_, ?_⟩
  all_goals simp [State.joinOrStartDownload, State.setPhase, State.init]

/-- The first client gets the head of whatever upstream answers. -/
theorem answered_run (E : Env ι) (c : ι) (resp : Response) :
    ∃ as s t, Run (Step E) .init as s ∧ (s.clients c).download = some 0 ∧
      s.tasks 0 = some t ∧ t.response = some resp ∧
      (s.clients c).responseMeta = some (metaOf resp) := by
  rcases started_run E c with ⟨s, hrun, hphase, hdownload, ht, hstate, hdown⟩
  let t₁ : Task ι := { Task.new (E.key c) c (E.request c) with phase := .requested }
  let t₂ : Task ι := { t₁ with phase := .streaming, response := some resp }
  let s₁ := s.setTask 0 t₁
  let s₂ := (s₁.setResponseMeta t₁.key (metaOf resp)).setTask 0 t₂
  have hfetch : Step E s (.fetch 0) s₁ := .fetch ht rfl
  have hrespond : Step E s₁ (.respond 0 resp) s₂ := .respond (by simp [s₁]) rfl
  have hmeta : (s₂.states 0).metaTx.waitFor Option.isSome = .ready (some (.ok (metaOf resp))) := by
    have hkey : s.downloads t₁.key.hashHex = some 0 := hdown
    simp only [s₂, s₁, State.setResponseMeta, State.withDownload, State.states_setTask,
      State.downloads_setTask, hkey, Function.update_self, hstate]
    rfl
  have hawait : Step E s₂ (.awaitMeta c) _ := .awaitMeta hphase hdownload hmeta
  have hclients : s₂.clients = s.clients := rfl
  refine ⟨_, _, t₂, ((hrun.snoc hfetch).snoc hrespond).snoc hawait, ?_, ?_, rfl, ?_⟩
  · simpa [State.setPhase, hclients] using hdownload
  · simp [State.setPhase, s₂]
  · simp [State.setPhase, Client.responseMeta]

/-- Every way gives the response of `forward_request_full`, in all runs, exactly when all the
end-to-end header values of the answer are text. -/
theorem uniform_iff_textOnly (hS : S.NonEmpty) (hround : S.RoundTrip) (hlegal : Legal resp)
    (c : ι) :
    (∀ (as : List (Action ι)) (s : State ι), Run (Step E) .init as s → Uniform S E resp s) ↔
      TextOnly resp := by
  constructor
  · intro h
    rcases answered_run E c resp with ⟨as, s, t, hrun, hd, ht, hresp, hm⟩
    exact textOnly_of_streamed hlegal ((h as s hrun).head c 0 t _ hd ht hresp hm)
  · intro htext as s hrun
    exact uniform_of_textOnly hS hround hlegal htext hrun

/-! ## Two answers -/

def plainResponse : Response :=
  { status := 200, headers := [("content-language".toList, .ofText "de".toList)] }

theorem legal_plainResponse : Legal plainResponse where
  names := by decide +kernel
  status := by decide

theorem uniform_iff_textOnly_plain :
    (∀ (as : List (Action Nat)) (s : State Nat), Run (Step exampleEnv) .init as s →
        Uniform exampleSerde exampleEnv plainResponse s) ↔ TextOnly plainResponse :=
  uniform_iff_textOnly exampleSerde_nonEmpty exampleSerde_roundTrip legal_plainResponse 0

/-- Of other answers nothing of the kind holds: a title in Latin-1 arrives as the empty string. -/
theorem not_uniform_latin :
    ¬ ∀ (resp : Response) (as : List (Action Nat)) (s : State Nat),
      Legal resp → 200 ≤ resp.status → resp.status < 300 → Run (Step exampleEnv) .init as s →
        Uniform exampleSerde exampleEnv resp s := by
  intro h
  let resp : Response := { status := 200, headers := [("title".toList, [67, 97, 102, 233])] }
  have hlegal : Legal resp := ⟨by decide +kernel, by decide⟩
  rcases answered_run exampleEnv 0 resp with ⟨as, s, t, hrun, hd, ht, hresp, hm⟩
  have huniform := h resp as s hlegal (by decide) (by decide) hrun
  have htext := textOnly_of_streamed hlegal (huniform.head 0 0 t _ hd ht hresp hm)
  have hlatin : ¬ TextOnly resp := by
    intro htext
    exact absurd (htext ("title".toList, [67, 97, 102, 233]) (by decide +kernel))
      (by decide +kernel)
  exact hlatin htext

end System

end Inflight
end Squiddish
