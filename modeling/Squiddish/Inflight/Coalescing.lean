import Squiddish.Inflight.Registry

/-!
# Coalescing — how many fetches one key causes

The registry lets one download of a key run at a time, and the cache answers once its entry is
stored.  A client that has missed in the cache and not yet joined stands between the two: if the
download is removed meanwhile, the client starts another.  `Timely` excludes it, and then the
clients of one key cause one fetch.
-/

namespace Squiddish
namespace Inflight

open Lib Cache

variable {ι : Type} {E : Env ι}

def isFetch : Action ι → Bool
  | .fetch _ => true
  | _ => false

/-- The download goes well: upstream answers, the entry is stored with a positive lifetime, and
it is not evicted. -/
def Smooth (E : Env ι) (s : State ι) : Action ι → Prop
  | .store d now => ∀ t h, s.tasks d = some t →
      ∃ entry, State.stored E t now h = some entry ∧ 0 < entry.ttlSeconds
  | .storeFailed _ | .fail _ _ | .oversized _ _ | .panic _ | .evict _ => False
  | _ => True

/-- A download is not removed while a client stands between its cache miss and its join. -/
def Timely (s : State ι) : Action ι → Prop
  | .completeDownload _ => ∀ c, (s.clients c).phase ≠ .missed
  | _ => True

/-! ## The invariant -/

/-- The phases of a task that has stored its entry. -/
def TaskPhase.Stored (phase : TaskPhase) : Prop :=
  phase = .succeeded ∨ phase = .completeSent ∨ phase = .released ∨ phase = .ended

/-- The phases of a task in which it is registered and all is well. -/
def TaskPhase.Sound (phase : TaskPhase) : Prop :=
  phase ≠ .failed ∧ phase ≠ .errorPublished ∧ phase ≠ .errorSent ∧ phase ≠ .panicked

structure Coalesced (k : CacheKey) (as : List (Action ι)) (s : State ι) : Prop where
  registered : Registered s
  key : ∀ d t, s.tasks d = some t → t.key = k
  single : ∀ d d' t t', s.tasks d = some t → s.tasks d' = some t' → d = d'
  sound : ∀ d t, s.tasks d = some t → t.phase.Sound
  stored : ∀ d t, s.tasks d = some t → t.phase.Stored → s.cache k ≠ none
  closed : ∀ d t, s.tasks d = some t → ¬ t.phase.Live → ∀ c, (s.clients c).phase ≠ .missed
  fetched : as.countP isFetch = 0 ∨
    (as.countP isFetch = 1 ∧ ∃ d t, s.tasks d = some t ∧ t.phase ≠ .spawned)

/-! ## What steps do to the parts of the invariant -/

theorem DownloadStep.key {d : Nat} {a : Action ι} {t t' : Task ι} {st st' : DownloadState}
    (h : DownloadStep E d a t st t' st') : t'.key = t.key := by
  cases h <;> rfl

theorem DownloadStep.ne_spawned {d : Nat} {a : Action ι} {t t' : Task ι}
    {st st' : DownloadState} (h : DownloadStep E d a t st t' st') (ht : t.phase ≠ .spawned) :
    t'.phase ≠ .spawned := by
  cases h with
  | receivers n | chunk _ _ _ =>
      exact ht
  | _ =>
      simp

/-- Only a failure makes a sound task unsound. -/
theorem DownloadStep.sound {s : State ι} {d : Nat} {a : Action ι} {t t' : Task ι}
    {st st' : DownloadState} (h : DownloadStep E d a t st t' st') (hsmooth : Smooth E s a)
    (ht : t.phase.Sound) : t'.phase.Sound := by
  cases h with
  | receivers n | chunk _ _ _ =>
      exact ht
  | oversized _ | storeFailed _ | fail _ | panic _ =>
      exact hsmooth.elim
  | publishError hphase _ =>
      exact absurd hphase ht.1
  | sendError hphase _ =>
      exact absurd hphase ht.2.1
  | _ =>
      simp [TaskPhase.Sound]

/-- A task gets past its store only by storing. -/
theorem DownloadStep.stored {s : State ι} {d : Nat} {a : Action ι} {t t' : Task ι}
    {st st' : DownloadState} (h : DownloadStep E d a t st t' st') (hsmooth : Smooth E s a)
    (hsound : t.phase.Sound) (ht' : t'.phase.Stored) :
    t.phase.Stored ∨ ∃ now, a = .store d now := by
  cases h with
  | receivers n | chunk _ _ _ =>
      exact Or.inl ht'
  | @store _ _ now _ =>
      exact Or.inr ⟨now, rfl⟩
  | storeFailed _ =>
      exact hsmooth.elim
  | sendComplete hphase =>
      exact Or.inl (Or.inl hphase)
  | completeDownload hphase =>
      rcases hphase with hphase | hphase | hphase
      · exact Or.inl (Or.inr (Or.inl hphase))
      -- in a smooth run the guard is dropped after `Complete` only
      · exact absurd hphase hsound.2.2.1
      · exact absurd hphase hsound.2.2.2
  | endTask hphase =>
      exact Or.inl (Or.inr (Or.inr (Or.inl hphase)))
  | _ =>
      simp [TaskPhase.Stored] at ht'

/-- A guard is dropped by `completeDownload`. -/
theorem DownloadStep.eq_completeDownload {d : Nat} {a : Action ι} {t t' : Task ι}
    {st st' : DownloadState} (h : DownloadStep E d a t st t' st') (ht : t.phase.Live)
    (ht' : ¬ t'.phase.Live) : a = .completeDownload d := by
  cases h with
  | receivers n | chunk _ _ _ =>
      exact absurd ht ht'
  | completeDownload _ =>
      rfl
  | endTask hphase =>
      exact absurd hphase ht.1
  | _ =>
      exact absurd (by simp [TaskPhase.Live]) ht'

/-- A task that is sound and whose guard has been dropped has stored its entry. -/
theorem TaskPhase.stored_of_not_live {phase : TaskPhase} (h : ¬ phase.Live) : phase.Stored := by
  cases phase <;> simp [TaskPhase.Live] at h <;> simp [TaskPhase.Stored]

variable {k : CacheKey} {as : List (Action ι)} {s s' : State ι} {a : Action ι}

namespace Coalesced

theorem init (k : CacheKey) : Coalesced k [] (State.init : State ι) where
  registered := .init
  key := by simp [State.init]
  single := by simp [State.init]
  sound := by simp [State.init]
  stored := by simp [State.init]
  closed := by simp [State.init]
  fetched := Or.inl rfl

/-- A client that starts a download finds that there has been none. -/
theorem tasks_eq_none (h : Coalesced k as s) {c : ι} (hkey : E.key c = k)
    (hmissed : (s.clients c).phase = .missed)
    (hdown : s.downloads (E.key c).hashHex = none) (d : Nat) : s.tasks d = none := by
  cases ht : s.tasks d with
  | none =>
      rfl
  | some t =>
      by_cases hl : t.phase.Live
      · have hreg := h.registered.live d t ht hl
        -- a live task would be registered under the key, and nothing is
        rw [h.key d t ht, ← hkey, hdown] at hreg
        cases hreg
      · exact absurd hmissed (h.closed d t ht hl c)

end Coalesced

section System

variable [DecidableEq ι]

/-- A step that does not evict keeps the entries. -/
theorem Step.cache_ne_none (hstep : Step E s a s') (hevict : ∀ key, a ≠ .evict key)
    (h : s.cache k ≠ none) : s'.cache k ≠ none := by
  cases hstep with
  | @store d t now hlen _ _ =>
      cases hentry : State.stored E t now hlen with
      | none =>
          simpa [State.store, hentry] using h
      | some entry =>
          by_cases hk : k = t.key
          · simp [State.store, hentry, hk]
          · simpa [State.store, hentry, hk] using h
  | @joinOrStart c hphase =>
      cases hd : s.downloads (E.key c).hashHex with
      | some d =>
          simpa [State.joinOrStartDownload, hd] using h
      | none =>
          simpa [State.joinOrStartDownload, hd] using h
  | evict =>
      exact absurd rfl (hevict _)
  | @restore key key' entry _ _ =>
      by_cases hk : k = key
      · simp [hk]
      · simpa [hk] using h
  | _ =>
      exact h

/-- The store of a smooth run leaves an entry. -/
theorem Step.cache_of_store {d : Nat} {now : Nat} (hstep : Step E s (.store d now) s')
    (hsmooth : Smooth E s (.store d now)) {t : Task ι} (ht : s.tasks d = some t) :
    s'.cache t.key ≠ none := by
  cases hstep with
  | store hlen ht' _ =>
      cases ht'.symm.trans ht
      rcases hsmooth t hlen ht with ⟨entry, hentry, -⟩
      simp [State.store, hentry]

/-- The tasks after a step: the one a client starts when there was none, or those there were,
each moved by `DownloadStep`. -/
theorem Coalesced.tasks_cases (h : Coalesced k as s) (hkey : ∀ c, E.key c = k)
    (hstep : Step E s a s') {d : Nat} {t' : Task ι} (ht' : s'.tasks d = some t') :
    (∃ c, a = .joinOrStart c ∧ (∀ d, s.tasks d = none) ∧ d = s.next ∧
        t' = Task.new (E.key c) c (E.request c)) ∨
      ∃ t, s.tasks d = some t ∧ DownloadStep E d a t (s.states d) t' (s'.states d) := by
  cases ht : s.tasks d with
  | none =>
      rcases hstep.started ht ht' with ⟨-, c, rfl, hdown, hd, htask⟩
      have hmissed : (s.clients c).phase = .missed := by
        cases hstep with
        | joinOrStart hmissed =>
            exact hmissed
      exact Or.inl ⟨c, rfl, h.tasks_eq_none (hkey c) hmissed hdown, hd, htask⟩
  | some t =>
      rcases h.registered.moves hstep d t ht with ⟨t₁, ht₁, hmove⟩
      have : t₁ = t' := by
        simpa [ht'] using ht₁.symm
      subst this
      exact Or.inr ⟨t, rfl, hmove⟩

theorem Coalesced.sound_step (h : Coalesced k as s) (hkey : ∀ c, E.key c = k)
    (hstep : Step E s a s') (hsmooth : Smooth E s a) :
    ∀ d t, s'.tasks d = some t → t.phase.Sound := by
  intro d t' ht'
  rcases h.tasks_cases hkey hstep ht' with ⟨c, -, -, -, rfl⟩ | ⟨t, ht, hmove⟩
  · simp [Task.new, TaskPhase.Sound]
  · exact hmove.sound hsmooth (h.sound d t ht)

theorem Coalesced.stored_step (h : Coalesced k as s) (hkey : ∀ c, E.key c = k)
    (hstep : Step E s a s') (hsmooth : Smooth E s a) :
    ∀ d t, s'.tasks d = some t → t.phase.Stored → s'.cache k ≠ none := by
  have hevict : ∀ key, a ≠ .evict key := by
    rintro key rfl
    exact hsmooth
  intro d t' ht' hphase'
  rcases h.tasks_cases hkey hstep ht' with ⟨c, -, -, -, rfl⟩ | ⟨t, ht, hmove⟩
  · simp [Task.new, TaskPhase.Stored] at hphase'
  · rcases hmove.stored hsmooth (h.sound d t ht) hphase' with hphase | ⟨now, rfl⟩
    · exact hstep.cache_ne_none hevict (h.stored d t ht hphase)
    · exact h.key d t ht ▸ hstep.cache_of_store hsmooth ht

/-- A second task is only ever started when there is no first one. -/
theorem Coalesced.single_step (h : Coalesced k as s) (hkey : ∀ c, E.key c = k)
    (hstep : Step E s a s') :
    ∀ d d' t t', s'.tasks d = some t → s'.tasks d' = some t' → d = d' := by
  intro d d' t₁ t₂ ht₁ ht₂
  rcases h.tasks_cases hkey hstep ht₁ with ⟨-, -, hnone, hd, -⟩ | ⟨t, ht, -⟩
  -- the first of the two has just been started: then there was no other
  · rcases h.tasks_cases hkey hstep ht₂ with ⟨-, -, -, hd', -⟩ | ⟨t', ht', -⟩
    · exact hd.trans hd'.symm
    · simp [hnone d'] at ht'
  · rcases h.tasks_cases hkey hstep ht₂ with ⟨-, -, hnone, -, -⟩ | ⟨t', ht', -⟩
    · simp [hnone d] at ht
    · exact h.single d d' t t' ht ht'

/-- Once the guard of the task is gone no client stands between its miss and its join. -/
theorem Coalesced.closed_step (h : Coalesced k as s) (hkey : ∀ c, E.key c = k)
    (hstep : Step E s a s') (htimely : Timely s a) :
    ∀ d t, s'.tasks d = some t → ¬ t.phase.Live → ∀ c, (s'.clients c).phase ≠ .missed := by
  intro d t' ht' hl' c
  rcases h.tasks_cases hkey hstep ht' with ⟨c, -, -, -, rfl⟩ | ⟨t, ht, hmove⟩
  · simp [Task.new, TaskPhase.Live] at hl'
  · by_cases hl : t.phase.Live
    · -- the guard goes in this step, and the clients stay where they are
      have hact := hmove.eq_completeDownload hl hl'
      subst hact
      cases hstep with
      | completeDownload _ _ =>
          exact htimely c
    · -- the entry is there, so no client misses any more
      have hcache := h.stored d t ht (TaskPhase.stored_of_not_live hl)
      have hclient := hstep.client c
      generalize s'.clients c = client' at hclient
      cases hclient with
      | unchanged =>
          exact h.closed d t ht hl c
      | settled hsettled =>
          rintro rfl
          exact hsettled.elim
      | missed _ hnone =>
          exact absurd (hkey c ▸ hnone) hcache
      | joined _ _ | started _ _ | answered _ _ _ | built _ | polled _ _ =>
          simp

/-- The one task fetches once: it never comes back to where it was spawned. -/
theorem Coalesced.fetched_step (h : Coalesced k as s) (hstep : Step E s a s') :
    (as ++ [a]).countP isFetch = 0 ∨
      ((as ++ [a]).countP isFetch = 1 ∧ ∃ d t, s'.tasks d = some t ∧ t.phase ≠ .spawned) := by
  by_cases hfetch : isFetch a = true
  · cases hstep with
    | @fetch d t ht hphase =>
        rcases h.fetched with hzero | ⟨-, d', t', ht', hphase'⟩
        · exact Or.inr
            ⟨by simp [hzero, isFetch], d, { t with phase := .requested }, by simp, by simp⟩
        · cases h.single d d' t t' ht ht'
          cases ht.symm.trans ht'
          exact absurd hphase hphase'
    | _ =>
        simp [isFetch] at hfetch
  · have hcount : (as ++ [a]).countP isFetch = as.countP isFetch := by
      simp [hfetch]
    rw [hcount]
    rcases h.fetched with hzero | ⟨hone, d, t, ht, hphase⟩
    · exact Or.inl hzero
    · rcases h.registered.moves hstep d t ht with ⟨t', ht', hmove⟩
      exact Or.inr ⟨hone, d, t', ht', hmove.ne_spawned hphase⟩

theorem Coalesced.step (h : Coalesced k as s) (hkey : ∀ c, E.key c = k)
    (hstep : Step E s a s') (hsmooth : Smooth E s a) (htimely : Timely s a) :
    Coalesced k (as ++ [a]) s' where
  registered := h.registered.step hstep
  key := by
    intro d t' ht'
    rcases h.tasks_cases hkey hstep ht' with ⟨c, -, -, -, rfl⟩ | ⟨t, ht, hmove⟩
    · exact hkey c
    · exact hmove.key.trans (h.key d t ht)
  single := h.single_step hkey hstep
  sound := h.sound_step hkey hstep hsmooth
  stored := h.stored_step hkey hstep hsmooth
  closed := h.closed_step hkey hstep htimely
  fetched := h.fetched_step hstep

/-- When downloads go well and none is removed under a client that is about to join, all
clients of one key together cause at most one fetch. -/
theorem countP_isFetch_le_one {k : CacheKey} (hkey : ∀ c, E.key c = k) {s : State ι}
    {as : List (Action ι)}
    (hrun : Run (Guarded (Step E) (fun s a => Smooth E s a ∧ Timely s a)) .init as s) :
    as.countP isFetch ≤ 1 := by
  have hinv : Coalesced k ([] ++ as) s :=
    hrun.history (I := fun as s => Coalesced k as s)
      (fun _ _ _ _ h hstep => h.step hkey hstep.1 hstep.2.1 hstep.2.2) (.init k)
  rcases hinv.fetched with hzero | ⟨hone, -⟩
  · exact Nat.le_trans (Nat.le_of_eq hzero) (Nat.zero_le 1)
  · exact Nat.le_of_eq hone

end System

/-- Without cache headers the page of the example is stored for the default lifetime. -/
theorem stored_exampleEnv {t : Task Nat} (hkey : t.key.uri = "http://example.com/".toList)
    (hresp : t.response = some ⟨200, []⟩) (h : t.cacheBuf.length < 2 ^ 63) :
    ∃ entry, State.stored exampleEnv t 0 h = some entry ∧ 0 < entry.ttlSeconds := by
  have hcacheable : cacheable ⟨200, []⟩ = true := by
    decide
  have httl := storedTtl_exampleEnv
  rw [← hkey] at httl
  exact ⟨State.entryOf t ⟨200, []⟩ 0 (7 * 24 * 60 * 60) h,
    State.stored_of_cacheable hresp hcacheable httl, by simp [State.entryOf]⟩

/-- The second client joins the download of the first. -/
theorem countP_isFetch_le_one_join :
    ∃ as : List (Action Nat), as.countP isFetch ≤ 1 ∧ .fetch 0 ∈ as ∧ .joinOrStart 1 ∈ as := by
  have hrun : Run (Guarded (Step exampleEnv)
      (fun s a => Smooth exampleEnv s a ∧ Timely s a)) .init
      [.lookup 0, .lookup 1, .joinOrStart 0, .fetch 0, .joinOrStart 1, .respond 0 ⟨200, []⟩,
        .bodyEnd 0, .store 0 0, .sendComplete 0, .completeDownload 0] _ :=
    .cons ⟨.lookupMiss rfl rfl, trivial, trivial⟩ <|
    .cons ⟨.lookupMiss rfl rfl, trivial, trivial⟩ <|
    .cons ⟨.joinOrStart rfl, trivial, trivial⟩ <|
    .cons ⟨.fetch rfl rfl, trivial, trivial⟩ <|
    .cons ⟨.joinOrStart rfl, trivial, trivial⟩ <|
    .cons ⟨.respond rfl rfl, trivial, trivial⟩ <|
    .cons ⟨.bodyEnd rfl rfl, trivial, trivial⟩ <|
    .cons ⟨.store (by decide) rfl rfl, fun t h ht => by
      cases ht
      exact stored_exampleEnv rfl rfl h, trivial⟩ <|
    .cons ⟨.sendComplete rfl rfl, trivial, trivial⟩ <|
    .cons ⟨.completeDownload rfl (Or.inl rfl), trivial, fun c => by
      rcases c with _ | _ | c
      all_goals
        intro hmissed
        cases hmissed⟩ <|
    .nil _
  exact ⟨_, countP_isFetch_le_one (k := exampleEnv.key 0) (fun _ => rfl) hrun, by simp, by simp⟩

/-- The second client misses before the download of the first is stored, and joins after it is
removed. -/
theorem not_countP_isFetch_le_one :
    ¬ ∀ (as : List (Action Nat)) (s : State Nat),
      Run (Guarded (Step exampleEnv) (Smooth exampleEnv)) .init as s →
      as.countP isFetch ≤ 1 := by
  intro h
  have hrun : Run (Guarded (Step exampleEnv) (Smooth exampleEnv)) .init
      [.lookup 0, .joinOrStart 0, .lookup 1, .fetch 0, .respond 0 ⟨200, []⟩, .bodyEnd 0,
        .store 0 0, .sendComplete 0, .completeDownload 0, .joinOrStart 1, .fetch 1] _ :=
    .cons ⟨.lookupMiss rfl rfl, trivial⟩ <|
    .cons ⟨.joinOrStart rfl, trivial⟩ <|
    .cons ⟨.lookupMiss rfl rfl, trivial⟩ <|
    .cons ⟨.fetch rfl rfl, trivial⟩ <|
    .cons ⟨.respond rfl rfl, trivial⟩ <|
    .cons ⟨.bodyEnd rfl rfl, trivial⟩ <|
    .cons ⟨.store (by decide) rfl rfl, fun t h ht => by
      cases ht
      exact stored_exampleEnv rfl rfl h⟩ <|
    .cons ⟨.sendComplete rfl rfl, trivial⟩ <|
    .cons ⟨.completeDownload rfl (Or.inl rfl), trivial⟩ <|
    .cons ⟨.joinOrStart rfl, trivial⟩ <|
    .cons ⟨.fetch rfl rfl, trivial⟩ <|
    .nil _
  exact absurd (h _ _ hrun) (by decide)

end Inflight
end Squiddish
