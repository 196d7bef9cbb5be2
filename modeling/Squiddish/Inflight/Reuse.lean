import Squiddish.Inflight.Entitlement

/-!
# Reuse — which answers the cache gives to whom

An entry of the cache was stored by the task of some client `i`, from what upstream answered to the
request of `i`, and every client whose key has the same hash may get it.  With `Fits c i resp` for
"`c` may get the answer `resp` to the request of `i`" this file supplies

* `StoredFor` : the entry was stored by a download for `i` that upstream answered with `resp`;
* `Preserving` : the steps that store no answer which a client still to come may not get;
* `Reusing` : the invariant, by which every hit is an answer to somebody's request under the same
  key, and one that fits when all steps are preserving;
* `fits_of_run` : in runs of suited and preserving steps every answer fits, wherever it comes from.
-/

namespace Squiddish
namespace Inflight

open Lib Cache

variable {ι : Type} {E : Env ι}

/-! ## Where an entry comes from -/

/-- The task will read and store nothing more. -/
def TaskPhase.Over (phase : TaskPhase) : Prop :=
  ¬ phase.Reading ∧ phase ≠ .received

/-- A task that is over keeps everything but its phase. -/
theorem DownloadStep.isOver {d : Nat} {a : Action ι} {t t' : Task ι} {st st' : DownloadState}
    (hmove : DownloadStep E d a t st t' st') (h : t.phase.Over) :
    t'.phase.Over ∧ t' = { t with phase := t'.phase } := by
  cases hmove with
  | receivers n =>
      exact ⟨h, rfl⟩
  | fetch hphase | respond hphase | chunk hphase _ _ | oversized hphase | bodyEnd hphase
  | store hphase | storeFailed hphase =>
      simp [TaskPhase.Over, TaskPhase.Reading, hphase] at h
  | fail hphase =>
      exact absurd hphase h.1
  | publishError _ _ | sendError _ _ | sendComplete _ | panic _ | completeDownload _
  | endTask _ =>
      exact ⟨by simp [TaskPhase.Over, TaskPhase.Reading], rfl⟩

/-- A task fetches the request of its initiator, under the key of its initiator. -/
def Task.Own (E : Env ι) (t : Task ι) : Prop :=
  t.request = E.request t.initiator ∧ t.key = E.key t.initiator

theorem DownloadStep.own {d : Nat} {a : Action ι} {t t' : Task ι} {st st' : DownloadState}
    (hmove : DownloadStep E d a t st t' st') (h : t.Own E) : t'.Own E := by
  cases hmove with
  | _ =>
      exact h

/-- The task has got the whole answer `resp`, and what it stores of it is `entry`. -/
structure Task.Stored (E : Env ι) (t : Task ι) (resp : Response) (entry : CacheEntry) : Prop where
  isOver : t.phase.Over
  complete : t.bodyComplete = true
  response : t.response = some resp
  stored : ∃ now h, State.stored E t now h = some entry

/-- The download of the client `i` got the answer `resp` and stored it as `entry`. -/
def StoredFor (E : Env ι) (s : State ι) (entry : CacheEntry) (i : ι) (resp : Response) : Prop :=
  ∃ d t, s.tasks d = some t ∧ t.initiator = i ∧ t.Stored E resp entry

/-- What is stored is cacheable, and has the status and the filtered headers of the answer and all
that was buffered. -/
theorem Task.Stored.entry_eq {t : Task ι} {resp : Response} {entry : CacheEntry}
    (h : t.Stored E resp entry) :
    cacheable resp = true ∧ entry.status = resp.status ∧
      entry.headers = (metaOf resp).headers ∧ entry.data = t.cacheBuf := by
  rcases h.stored with ⟨now, hlen, hstored⟩
  have hresp := h.response
  cases hc : Inflight.cacheable resp with
  | false =>
      simp [State.stored, hresp, hc] at hstored
  | true =>
      cases httl : Proxy.storedTtl E.parseHttpDate E.config now t.key.uri
          (Proxy.filterHeaders resp.headers) with
      | none =>
          simp [State.stored, hresp, hc, httl] at hstored
      | some ttl =>
          have hentry : State.entryOf t resp now ttl hlen = entry := by
            simpa [State.stored, hresp, hc, httl] using hstored
          subst hentry
          exact ⟨rfl, rfl, rfl, rfl⟩

/-! ## The cache in one step -/

section Step

variable [DecidableEq ι] {s s' : State ι} {a : Action ι}

theorem StoredFor.step (h : Registered s) (hstep : Step E s a s') {entry : CacheEntry} {i : ι}
    {resp : Response} (hfor : StoredFor E s entry i resp) : StoredFor E s' entry i resp := by
  rcases hfor with ⟨d, t, ht, hi, hstored⟩
  rcases h.moves hstep d t ht with ⟨t', ht', hmove⟩
  rcases hmove.isOver hstored.isOver with ⟨hover', heq⟩
  -- a task that is over changes its phase only
  generalize t'.phase = phase at heq hover'
  subst heq
  exact ⟨d, { t with phase := phase }, ht', hi,
    ⟨hover', hstored.complete, hstored.response, hstored.stored⟩⟩

/-- The cache is written by the tasks only. -/
theorem Step.written_cases (hstep : Step E s a s') :
    s'.written = s.written ∨
      ∃ d t now h, a = .store d now ∧ s.tasks d = some t ∧ t.phase = .received ∧
        s'.tasks d = some { t with phase := .succeeded } ∧
        s'.written = s.written ++
          ((State.stored E t now h).map (fun entry => (t.key, entry))).toList := by
  cases hstep with
  | @store d t now hlen ht hphase =>
      exact Or.inr ⟨d, t, now, hlen, rfl, ht, hphase, by simp, rfl⟩
  | @joinOrStart c _ =>
      cases hd : s.downloads (E.key c).hashHex <;>
        exact Or.inl (by simp [State.joinOrStartDownload, hd])
  | _ =>
      exact Or.inl rfl

/-- The cache holds what it held, or what was written under a key with the same hash. -/
theorem Step.cached (hstep : Step E s a s') {key : CacheKey} {entry : CacheEntry}
    (hentry : s'.cache key = some entry) :
    s.cache key = some entry ∨ ∃ key', (key', entry) ∈ s'.written ∧ key'.hash = key.hash := by
  cases hstep with
  | @store d t now hlen _ _ =>
      cases hstored : State.stored E t now hlen with
      | none =>
          exact Or.inl (by simpa [State.store, hstored] using hentry)
      | some entry' =>
          -- the entry is written under the key of the task, and under no other
          by_cases hkey : key = t.key
          · subst hkey
            have : entry' = entry := by
              simpa [State.store, hstored] using hentry
            subst this
            exact Or.inr ⟨t.key, by simp [State.store, hstored], rfl⟩
          · exact Or.inl (by simpa [State.store, hstored, hkey] using hentry)
  | @joinOrStart c _ =>
      refine Or.inl ?_
      cases hd : s.downloads (E.key c).hashHex <;>
        simpa [State.joinOrStartDownload, hd] using hentry
  | @evict key₀ =>
      by_cases hkey : key = key₀
      · simp [hkey] at hentry
      · exact Or.inl (by simpa [hkey] using hentry)
  | @restore key₀ key' entry' hmem hhash =>
      by_cases hkey : key = key₀
      · subst hkey
        have : entry' = entry := by
          simpa using hentry
        subst this
        exact Or.inr ⟨key', hmem, hhash⟩
      · exact Or.inl (by simpa [hkey] using hentry)
  | _ =>
      exact Or.inl hentry

/-- A client gets a hit by looking its key up. -/
theorem Step.hit_cases (hstep : Step E s a s') {c : ι} {entry : CacheEntry}
    (hhit : (s'.clients c).phase = .hit entry) :
    (s.clients c).phase = .hit entry ∨
      ((s.clients c).phase = .arrived ∧ s.cache (E.key c) = some entry) := by
  -- only the phase of the client that moves changes
  have hset : ∀ {s₁ : State ι} {c₀ : ι} {phase : ClientPhase}, s₁.clients = s.clients →
      ((s₁.setPhase c₀ phase).clients c).phase = .hit entry →
      (s.clients c).phase = .hit entry ∨ (c = c₀ ∧ phase = .hit entry) := by
    intro s₁ c₀ phase hclients h
    by_cases hc : c = c₀
    · subst hc
      exact Or.inr ⟨rfl, by simpa [State.setPhase] using h⟩
    · exact Or.inl (by simpa [State.setPhase, hc, hclients] using h)
  cases hstep with
  | @lookupHit c₀ entry' hphase hcache =>
      rcases hset rfl hhit with hold | ⟨rfl, hnew⟩
      · exact Or.inl hold
      · cases hnew
        exact Or.inr ⟨hphase, hcache⟩
  | lookupMiss _ _ | lookupFailed _ _ | awaitMeta _ _ _ | awaitError _ _ _ | awaitClosed _ _ _ _
  | build _ _ | disconnectWaiting _ _ | disconnectAnswered _ _ | disconnect _ _ =>
      rcases hset rfl hhit with hold | ⟨-, hnew⟩
      · exact Or.inl hold
      · cases hnew
  | @joinOrStart c₀ _ =>
      by_cases hc : c = c₀
      · subst hc
        cases hd : s.downloads (E.key c).hashHex <;>
          simp [State.joinOrStartDownload, hd] at hhit
      · cases hd : s.downloads (E.key c₀).hashHex <;>
          exact Or.inl (by simpa [State.joinOrStartDownload, hd, hc] using hhit)
  | @poll c₀ d m body hphase _ =>
      by_cases hc : c = c₀
      · subst hc
        simp at hhit
      · exact Or.inl (by simpa [hc] using hhit)
  | _ =>
      exact Or.inl hhit

/-- No client comes back. -/
theorem Step.arrived (hstep : Step E s a s') {c : ι} (h : (s'.clients c).phase = .arrived) :
    (s.clients c).phase = .arrived := by
  have hclient := hstep.client c
  generalize s'.clients c = client' at hclient h
  cases hclient with
  | unchanged =>
      exact h
  | @settled _ phase hsettled =>
      cases h
      exact hsettled.elim
  | polled _ _ =>
      simp at h
  | missed _ _ | joined _ _ | started _ _ | answered _ _ _ | built _ =>
      cases h

end Step

/-! ## The invariant -/

section Invariant

variable (Fits : ι → ι → Response → Prop)

/-- No answer is stored that a client still to come may not get. -/
def Preserving (E : Env ι) (s : State ι) : Action ι → Prop
  | .store d now => ∀ t resp h entry c, s.tasks d = some t → t.response = some resp →
      State.stored E t now h = some entry → (s.clients c).phase = .arrived →
      (E.key c).hash = t.key.hash → Fits c t.initiator resp
  | _ => True

/-- What the cache holds, and what it has given, are answers to requests with the same key. -/
structure Reusing (E : Env ι) (s : State ι) : Prop where
  own : ∀ d t, s.tasks d = some t → t.Own E
  written : ∀ key entry, (key, entry) ∈ s.written → ∃ i resp, StoredFor E s entry i resp ∧
    E.key i = key ∧
    ∀ c, (s.clients c).phase = .arrived → (E.key c).hash = key.hash → Fits c i resp
  cached : ∀ key entry, s.cache key = some entry →
    ∃ key', (key', entry) ∈ s.written ∧ key'.hash = key.hash
  hit : ∀ c entry, (s.clients c).phase = .hit entry → ∃ i resp, StoredFor E s entry i resp ∧
    (E.key i).hash = (E.key c).hash ∧ Fits c i resp

variable {Fits}

namespace Reusing

theorem init : Reusing Fits E .init where
  own := by simp [State.init]
  written := by simp [State.init]
  cached := by simp [State.init]
  hit := by simp [State.init, Client.new]

variable [DecidableEq ι] {s s' : State ι} {a : Action ι}

theorem own_step (h : Reusing Fits E s) (hreg : Registered s) (hstep : Step E s a s') :
    ∀ d t, s'.tasks d = some t → t.Own E :=
  hreg.downloads_step (P := fun t _ => t.Own E) hstep (fun _ _ => ⟨rfl, rfl⟩)
    (fun _ _ _ _ hmove hown => hmove.own hown) h.own

theorem written_step (h : Reusing Fits E s) (hdel : Delivering s) (hstep : Step E s a s')
    (hpres : Preserving Fits E s a) {key : CacheKey} {entry : CacheEntry}
    (hmem : (key, entry) ∈ s'.written) :
    ∃ i resp, StoredFor E s' entry i resp ∧ E.key i = key ∧
      ∀ c, (s'.clients c).phase = .arrived → (E.key c).hash = key.hash → Fits c i resp := by
  -- what was written before stays written, and fewer clients are still to come
  have hold : (key, entry) ∈ s.written → ∃ i resp, StoredFor E s' entry i resp ∧ E.key i = key ∧
      ∀ c, (s'.clients c).phase = .arrived → (E.key c).hash = key.hash → Fits c i resp := by
    intro hmem
    rcases h.written key entry hmem with ⟨i, resp, hfor, hkey, hfits⟩
    exact ⟨i, resp, hfor.step hdel.registered hstep, hkey,
      fun c hc => hfits c (hstep.arrived hc)⟩
  rcases hstep.written_cases with heq | ⟨d, t, now, hlen, rfl, ht, hphase, ht', heq⟩
  · exact hold (by simpa [heq] using hmem)
  · rw [heq] at hmem
    rcases List.mem_append.1 hmem with hmem | hmem
    · exact hold hmem
    · have hboth : State.stored E t now hlen = some entry ∧ t.key = key := by
        simpa using hmem
      rcases hboth with ⟨hstored, rfl⟩
      cases hresp : t.response with
      | none =>
          simp [State.stored, hresp] at hstored
      | some resp =>
          refine ⟨t.initiator, resp, ?_, (h.own d t ht).2.symm, ?_⟩
          -- the task stores when its body has been received whole
          · have hcomplete := (hdel.consistent d t ht).body true (by rw [hphase]; rfl)
            exact ⟨d, { t with phase := .succeeded }, ht', rfl,
              by simp [TaskPhase.Over, TaskPhase.Reading], hcomplete, hresp, now, hlen, hstored⟩
          · intro c hc hhash
            exact hpres t resp hlen entry c ht hresp hstored (hstep.arrived hc) hhash

theorem written_mono (hstep : Step E s a s') {key : CacheKey} {entry : CacheEntry}
    (hmem : (key, entry) ∈ s.written) : (key, entry) ∈ s'.written := by
  rcases hstep.written_cases with heq | ⟨_, _, _, _, _, _, _, _, heq⟩
  · simpa [heq] using hmem
  · rw [heq]
    exact List.mem_append_left _ hmem

theorem step (h : Reusing Fits E s) (hdel : Delivering s) (hstep : Step E s a s')
    (hpres : Preserving Fits E s a) : Reusing Fits E s' where
  own := h.own_step hdel.registered hstep
  written := fun _ _ hmem => h.written_step hdel hstep hpres hmem
  cached := by
    intro key entry hentry
    rcases hstep.cached hentry with hold | hnew
    · rcases h.cached key entry hold with ⟨key', hmem, hhash⟩
      exact ⟨key', written_mono hstep hmem, hhash⟩
    · exact hnew
  hit := by
    intro c entry hhit
    rcases hstep.hit_cases hhit with hold | ⟨harrived, hcache⟩
    · rcases h.hit c entry hold with ⟨i, resp, hfor, hhash, hfits⟩
      exact ⟨i, resp, hfor.step hdel.registered hstep, hhash, hfits⟩
    -- a hit takes what is cached under its key, which was written under one with its hash
    · rcases h.cached _ entry hcache with ⟨key', hmem, hhash⟩
      rcases h.written key' entry hmem with ⟨i, resp, hfor, rfl, hfits⟩
      exact ⟨i, resp, hfor.step hdel.registered hstep, hhash, hfits c harrived hhash.symm⟩

end Reusing

variable [DecidableEq ι]

/-- In runs of preserving steps every hit is an answer that fits. -/
theorem reusing_of_preserving {s : State ι} {as : List (Action ι)}
    (hrun : Run (Guarded (Step E) (Preserving Fits E)) .init as s) : Reusing Fits E s := by
  refine hrun.invariant_under (J := Delivering) (I := Reusing Fits E) ?_ ?_ .init .init
  · intro s a s' h hstep
    exact h.step hstep.1
  · intro s a s' hdel h hstep
    exact h.step hdel hstep.1 hstep.2

end Invariant

/-! ## Answers -/

/-- The status the client has got. -/
def Client.status (client : Client) : Option Nat :=
  match client.phase with
  | .hit entry => some entry.status
  | _ => client.responseMeta.map ResponseMeta.status

/-- What the client `c` has got is the answer `resp` to the request of `i`, from a download or from
the cache. -/
def AnswerTo (E : Env ι) (s : State ι) (c i : ι) (resp : Response) : Prop :=
  (∃ d t, (s.clients c).download = some d ∧ s.tasks d = some t ∧ t.initiator = i ∧
      t.response = some resp ∧ (s.clients c).responseMeta = some (metaOf resp)) ∨
    ∃ entry, (s.clients c).phase = .hit entry ∧ StoredFor E s entry i resp ∧
      (E.key i).hash = (E.key c).hash

/-- The steps that bring no client an answer it may not get, now or later. -/
def Fitting (Fits : ι → ι → Response → Prop) (E : Env ι) (s : State ι) (a : Action ι) : Prop :=
  Suited Fits E s a ∧ Preserving Fits E s a

theorem fits_of_run [DecidableEq ι] {Fits : ι → ι → Response → Prop} {s : State ι}
    {as : List (Action ι)} (hrun : Run (Guarded (Step E) (Fitting Fits E)) .init as s) {c : ι}
    {status : Nat} (hstatus : (s.clients c).status = some status) :
    ∃ i resp, AnswerTo E s c i resp ∧ resp.status = status ∧ Fits c i resp := by
  have hreg : Registered s :=
    hrun.of_guarded.invariant (fun _ _ _ h hstep => h.step hstep) .init
  have hentitled : AllEntitled Fits s :=
    allEntitled_of_suited (hrun.mono fun _ _ _ hstep => ⟨hstep.1, hstep.2.1⟩)
  have hreusing : Reusing Fits E s :=
    reusing_of_preserving (hrun.mono fun _ _ _ hstep => ⟨hstep.1, hstep.2.2⟩)
  -- the status is that of a hit, or of the headers of a download
  by_cases hhit : ∃ entry, (s.clients c).phase = .hit entry
  · rcases hhit with ⟨entry, hphase⟩
    rcases hreusing.hit c entry hphase with ⟨i, resp, hfor, hhash, hfits⟩
    have hentry : entry.status = status := by
      simpa [Client.status, hphase] using hstatus
    have hresp : resp.status = entry.status := by
      rcases hfor with ⟨_, _, _, _, hstored⟩
      exact hstored.entry_eq.2.1.symm
    exact ⟨i, resp, Or.inr ⟨entry, hphase, hfor, hhash⟩, hresp.trans hentry, hfits⟩
  · have hmeta : ∃ m, (s.clients c).responseMeta = some m ∧ m.status = status := by
      cases hphase : (s.clients c).phase with
      | hit entry =>
          exact absurd ⟨entry, hphase⟩ hhit
      | _ =>
          simpa [Client.status, hphase] using hstatus
    rcases hmeta with ⟨m, hm, rfl⟩
    rcases hentitled.attached c m hm with ⟨d, hd⟩
    rcases hreg.attached c d hd with ⟨t, ht⟩
    have hown := hentitled.entitled c d t hd ht
    rcases hown.responseMeta m hm with ⟨resp, hresp, rfl⟩
    exact ⟨t.initiator, resp, Or.inl ⟨d, t, hd, ht, rfl, hresp, hm⟩, rfl,
      hown.obtained resp hresp (Client.obtained_of_responseMeta hm)⟩

end Inflight
end Squiddish
