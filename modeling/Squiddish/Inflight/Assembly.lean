import Squiddish.Inflight.Answers
import Squiddish.Inflight.Atomicity
import Squiddish.Inflight.Tiers

/-!
# Assembly — two tiers make one cache

Under the condition `Assembly.Apart`, whatever handlers and tasks do over the two tiers they can do
over one cache that answers at once (`flat_of_run`).  That cache may forget anything, and may have
again whatever was put under the same hash: so it has just what a `get` returns at the moment the
`get` returns, and an entry is put into it when its task begins to store it.

* `World.flat` : the world over one cache;
* `Upholds` : in memory, on the disk and in every `get` there are entries that were put, as a whole.
-/

namespace Squiddish
namespace Inflight

open Lib Cache Proxy

variable {ι : Type} {E : Env ι}

/-! ## The world over one cache -/

/-- While a task stores its entry, it counts as having stored it. -/
def Task.taken (storing : Option Storing) (t : Task ι) : Task ι :=
  match storing with
  | some _ => { t with phase := .succeeded }
  | none => t

def Shared.flat (stores : Nat → Option Storing) (cache : CacheKey → Option CacheEntry)
    (sh : Shared ι) : Shared ι :=
  { sh with
    cache := cache
    tasks := fun d => (sh.tasks d).map (Task.taken (stores d)) }

def World.flat (stores : Nat → Option Storing) (cache : CacheKey → Option CacheEntry)
    (w : World ι) : World ι :=
  { w with shared := w.shared.flat stores cache }

section Flat

variable {stores : Nat → Option Storing} {cache : CacheKey → Option CacheEntry}

theorem Shared.tasks_flat (sh : Shared ι) {d : Nat} (h : stores d = none) :
    (sh.flat stores cache).tasks d = sh.tasks d := by
  cases ht : sh.tasks d <;> simp [Shared.flat, Task.taken, h, ht]

theorem Shared.flat_spawn {d : Nat} (h : stores d = none) (sh : Shared ι) (t : Task ι) :
    (sh.spawn d t).flat stores cache = (sh.flat stores cache).spawn d t := by
  ext d' : 2
  case tasks =>
    by_cases hd : d' = d
    · subst hd
      simp [Shared.flat, Shared.spawn, Task.taken, h]
    · simp [Shared.flat, Shared.spawn, hd]
  all_goals rfl

/-- A task that goes on storing counts as before. -/
theorem Shared.flat_update {d : Nat} {storing storing' : Storing} (h : stores d = some storing)
    (sh : Shared ι) :
    sh.flat (Function.update stores d (some storing')) cache = sh.flat stores cache := by
  ext d' : 2
  case tasks =>
    by_cases hd : d' = d
    · subst hd
      simp only [Shared.flat, Function.update_self, h]
      rfl
    · simp [Shared.flat, hd]
  all_goals rfl

/-- Every operation of a handler but `cache.get` is the same over one cache. -/
theorem Performs.flat {c : ι} {op : HandlerOp} {sh sh' : Shared ι} {r : op.Answer}
    (h : Performs c op sh r sh') (hcache : ∀ key, op ≠ .cacheGet key)
    (hspawn : ∀ d key req, op = .spawnDownload d key req → stores d = none) :
    Performs c op (sh.flat stores cache) r (sh'.flat stores cache) := by
  cases op with
  | cacheGet key =>
      exact absurd rfl (hcache key)
  | joinOrStart key =>
      cases hd : sh.downloads key.hashHex with
      | some d =>
          simp only [Performs, hd] at h
          rcases h with ⟨rfl, rfl⟩
          simp only [Performs, Shared.flat, hd, true_and]
          rfl
      | none =>
          simp only [Performs, hd] at h
          rcases h with ⟨rfl, rfl⟩
          simp only [Performs, Shared.flat, hd, true_and]
          rfl
  | subscribe d | waitMeta d =>
      exact ⟨congrArg (Shared.flat stores cache) h.1, h.2⟩
  | spawnDownload d key req =>
      have heq : sh' = sh.spawn d (Task.new key c req) := h
      rw [heq, Shared.flat_spawn (hspawn d key req rfl)]
      rfl
  | dropMeta d =>
      have heq : sh' = sh.modifyState d DownloadState.dropMeta := h
      rw [heq]
      rfl
  | _ =>
      exact congrArg (Shared.flat stores cache) h

variable [DecidableEq ι]

/-- A task that does not store moves over one cache as it does over two tiers. -/
theorem Step.flat {sh : Shared ι} {a : Action ι} {s' : State ι} (hstep : Step E sh.toState a s')
    (hclient : ¬ a.OfClient) (hcache : ¬ a.UsesCache)
    (htask : ∀ d, a.task = some d → stores d = none) :
    ∃ s₁, Step E (sh.flat stores cache).toState a s₁ ∧ s₁.shared = s'.shared.flat stores cache := by
  have hset : ∀ {d : Nat} (t : Task ι) (s : State ι), stores d = none →
      ((s.shared.flat stores cache).toState.setTask d t).shared =
        (s.setTask d t).shared.flat stores cache :=
    fun t s hd => (Shared.flat_spawn hd s.shared t).symm
  have hfind : ∀ {d : Nat} {t : Task ι}, sh.toState.tasks d = some t → stores d = none →
      (sh.flat stores cache).toState.tasks d = some t := by
    intro d t ht hd
    have hsame : (sh.flat stores cache).tasks d = sh.tasks d := sh.tasks_flat hd
    exact hsame.trans ht
  cases hstep with
  | lookupHit _ _ | lookupMiss _ _ | lookupFailed _ _ | joinOrStart _ | awaitMeta _ _ _
  | awaitError _ _ _ | awaitClosed _ _ _ _ | build _ _ | poll _ _ | disconnectWaiting _ _
  | disconnectAnswered _ _ | disconnect _ _ =>
      exact absurd trivial hclient
  | store _ _ _ | storeFailed _ _ | evict | restore _ _ =>
      exact absurd trivial hcache
  | fetch ht hphase =>
      have hd := htask _ rfl
      exact ⟨_, .fetch (hfind ht hd) hphase, hset _ sh.toState hd⟩
  | @respond d t resp ht hphase =>
      have hd := htask _ rfl
      exact ⟨_, .respond (hfind ht hd) hphase,
        hset _ (sh.toState.setResponseMeta t.key (metaOf resp)) hd⟩
  | @chunk d t resp bytes ht hphase hresp hsize =>
      have hd := htask _ rfl
      exact ⟨_, .chunk (hfind ht hd) hphase hresp hsize,
        hset _ (sh.toState.addChunk t.key bytes) hd⟩
  | oversized ht hphase hsize =>
      have hd := htask _ rfl
      exact ⟨_, .oversized (hfind ht hd) hphase hsize, hset _ sh.toState hd⟩
  | bodyEnd ht hphase =>
      have hd := htask _ rfl
      exact ⟨_, .bodyEnd (hfind ht hd) hphase, hset _ sh.toState hd⟩
  | fail ht hphase =>
      have hd := htask _ rfl
      exact ⟨_, .fail (hfind ht hd) hphase, hset _ sh.toState hd⟩
  | @publishError d t e ht hphase hfailure =>
      have hd := htask _ rfl
      exact ⟨_, .publishError (hfind ht hd) hphase hfailure,
        hset _ (sh.toState.setResponseError t.key e.toText) hd⟩
  | @sendError d t e ht hphase hfailure =>
      have hd := htask _ rfl
      exact ⟨_, .sendError (hfind ht hd) hphase hfailure,
        hset _ (sh.toState.modifyState d (fun st => st.report (.error e.toText))) hd⟩
  | @sendComplete d t ht hphase =>
      have hd := htask _ rfl
      exact ⟨_, .sendComplete (hfind ht hd) hphase,
        hset _ (sh.toState.modifyState d (fun st => st.report .complete)) hd⟩
  | panic ht hphase =>
      have hd := htask _ rfl
      exact ⟨_, .panic (hfind ht hd) hphase, hset _ sh.toState hd⟩
  | @completeDownload d t ht hphase =>
      have hd := htask _ rfl
      exact ⟨_, .completeDownload (hfind ht hd) hphase,
        hset _ (sh.toState.completeDownload t.key) hd⟩
  | @endTask d t ht hphase =>
      have hd := htask _ rfl
      exact ⟨_, .endTask (hfind ht hd) hphase,
        hset _ (sh.toState.modifyState d DownloadState.dropTask) hd⟩

end Flat

section Outside

variable {l : Assembly ι} {a : WorldAction ι} {w' : World ι}

/-- What gets and puts under way rest on stays. -/
structure LeavesCache (l : Assembly ι) (sh : Shared ι) : Prop where
  cache : sh.cache = l.world.shared.cache
  written : sh.written = l.world.shared.written
  tasks : ∀ d storing, l.stores d = some storing → sh.tasks d = l.world.shared.tasks d

theorem LeavesCache.refl (l : Assembly ι) : LeavesCache l l.world.shared :=
  ⟨rfl, rfl, fun _ _ _ => rfl⟩

/-- A task moves that does not store. -/
theorem LeavesCache.spawn {sh : Shared ι} (h : LeavesCache l sh) {d : Nat}
    (hd : l.stores d = none) (t : Task ι) : LeavesCache l (sh.spawn d t) where
  cache := h.cache
  written := h.written
  tasks := by
    intro d' storing hstoring
    have hne : d' ≠ d := by
      rintro rfl
      simp [hd] at hstoring
    simpa [Shared.spawn, hne] using h.tasks d' storing hstoring

theorem Performs.leavesCache {c : ι} {op : HandlerOp} {sh' : Shared ι} {r : op.Answer}
    (h : Performs c op l.world.shared r sh')
    (hspawn : ∀ d key req, op = .spawnDownload d key req → l.stores d = none) :
    LeavesCache l sh' := by
  cases op with
  | cacheGet key | subscribe d | waitMeta d =>
      rw [h.1]
      exact .refl l
  | joinOrStart key =>
      cases hd : l.world.shared.downloads key.hashHex with
      | some d | none =>
          simp only [Performs, hd] at h
          rw [h.2]
          exact ⟨rfl, rfl, fun _ _ _ => rfl⟩
  | spawnDownload d key req =>
      have heq : sh' = l.world.shared.spawn d (Task.new key c req) := h
      rw [heq]
      exact (LeavesCache.refl l).spawn (hspawn d key req rfl) _
  | dropMeta d =>
      have heq : sh' = l.world.shared.modifyState d DownloadState.dropMeta := h
      rw [heq]
      exact ⟨rfl, rfl, fun _ _ _ => rfl⟩
  | _ =>
      have heq : sh' = l.world.shared := h
      rw [heq]
      exact .refl l

variable [DecidableEq ι]

/-- Whoever moves outside the cache moves over one cache alike. -/
theorem WorldStep.flat (hstep : WorldStep E l.world a w') (hout : l.Outside a)
    (hspawn : ∀ c d, (l.world.threads c).Starting d → l.stores d = none)
    (cache : CacheKey → Option CacheEntry) :
    WorldStep E (l.world.flat l.stores cache) a (w'.flat l.stores cache) := by
  cases hstep with
  | @call c op next r sh' hth hop =>
      refine WorldStep.call hth (hop.flat ?_ ?_)
      · intro key heq
        subst heq
        exact hout key next hth
      · intro d key req heq
        subst heq
        exact hspawn c d ⟨_, hth, Or.inr ⟨key, req, rfl⟩⟩
  | reply hth => exact .reply hth
  | poll hth => exact .poll hth
  | closeWaiting hth => exact .closeWaiting hth
  | closeSuspended hth hop => exact .closeSuspended hth hop
  | closeStreaming hth => exact .closeStreaming hth
  | move hclient hstep =>
      rcases hstep.flat hclient hout.1 hout.2 with ⟨s₁, hstep', hshared⟩
      have hmove := WorldStep.move (w := l.world.flat l.stores cache) hclient hstep'
      rw [hshared] at hmove
      exact hmove

theorem Step.leavesCache {a : Action ι} {s' : State ι} (hstep : Step E l.world.shared.toState a s')
    (hclient : ¬ a.OfClient) (hcache : ¬ a.UsesCache)
    (htask : ∀ d, a.task = some d → l.stores d = none) : LeavesCache l s'.shared := by
  have hset : ∀ {s : State ι} {d : Nat} (t : Task ι), LeavesCache l s.shared →
      l.stores d = none → LeavesCache l (s.setTask d t).shared :=
    fun t h hd => h.spawn hd t
  have hsame : LeavesCache l l.world.shared.toState.shared := .refl l
  cases hstep with
  | lookupHit _ _ | lookupMiss _ _ | lookupFailed _ _ | joinOrStart _ | awaitMeta _ _ _
  | awaitError _ _ _ | awaitClosed _ _ _ _ | build _ _ | poll _ _ | disconnectWaiting _ _
  | disconnectAnswered _ _ | disconnect _ _ =>
      exact absurd trivial hclient
  | store _ _ _ | storeFailed _ _ | evict | restore _ _ =>
      exact absurd trivial hcache
  | fetch _ _ | oversized _ _ _ | bodyEnd _ _ | fail _ _ | panic _ _ =>
      exact hset _ hsame (htask _ rfl)
  | respond _ _ | chunk _ _ _ _ | publishError _ _ _ | sendError _ _ _ | sendComplete _ _
  | completeDownload _ _ | endTask _ _ =>
      exact hset _ ⟨rfl, rfl, fun _ _ _ => rfl⟩ (htask _ rfl)

theorem WorldStep.leavesCache (hstep : WorldStep E l.world a w') (hout : l.Outside a)
    (hspawn : ∀ c d, (l.world.threads c).Starting d → l.stores d = none) :
    LeavesCache l w'.shared := by
  cases hstep with
  | @call c op next r sh' hth hop =>
      refine hop.leavesCache ?_
      intro d key req heq
      subst heq
      exact hspawn c d ⟨_, hth, Or.inr ⟨key, req, rfl⟩⟩
  | reply _ | poll _ | closeSuspended _ _ | closeStreaming _ => exact .refl l
  | closeWaiting _ => exact ⟨rfl, rfl, fun _ _ _ => rfl⟩
  | move hclient hstep => exact hstep.leavesCache hclient hout.1 hout.2

end Outside

/-! ## What is held was put -/

/-- Every entry that a tier or a `get` may still answer with was put as a whole, under a key of the
same hash. -/
structure Upholds (S : Serde) (l : Assembly ι) : Prop where
  disk : l.disk.Inv S
  puts : ∀ p ∈ l.disk.puts, p ∈ l.world.shared.written
  memory : ∀ key entry, l.world.shared.cache key = some entry →
    WasPut l.world.shared.written key entry
  lookups : ∀ c lookup entry, l.lookups c = some lookup → lookup.phase.copy = some entry →
    WasPut l.world.shared.written lookup.key entry
  stores : ∀ d storing, l.stores d = some storing →
    ∃ t, l.world.shared.tasks d = some t ∧ t.phase = .received ∧
      (t.key, storing.entry) ∈ l.world.shared.written
  -- a removal that is cut leaves the directory in order
  removing : ∀ c cache, l.holder = some (.get c cache) →
    ∃ rest, l.disk.writer = .busy rest ∧ rest.OnlyCalls FileOp.Shrinks

theorem wasPut_of_subset {puts puts' : List (CacheKey × CacheEntry)} {key : CacheKey}
    {entry : CacheEntry} (h : WasPut puts key entry) (hle : ∀ p ∈ puts, p ∈ puts') :
    WasPut puts' key entry := by
  rcases h with ⟨key', hmem, hhash⟩
  exact ⟨key', hle _ hmem, hhash⟩

/-- A program goes on with the operations it is made of. -/
theorem onlyCalls_of_step {α : Type} {p p' : DiskProg α} {s t : FileStore Path}
    {kind : FileOp Path → Prop} (h : p.OnlyCalls kind)
    (hstep : Prog.Step (Prog.Does FileOp.apply) (p, s) (p', t)) : p'.OnlyCalls kind := by
  cases hstep with
  | call _ => exact h.2 _

namespace Upholds

variable {S : Serde} {l : Assembly ι}

theorem init (maxSize : Nat) : Upholds S (Assembly.init E maxSize) where
  disk :=
    { writer := by
        intro key
        exact .of_absent rfl
      gets := by simp [Assembly.init, Cache.Shared.init] }
  puts := by simp [Assembly.init, Cache.Shared.init]
  memory := by simp [Assembly.init, World.init, State.init, State.shared]
  lookups := by simp [Assembly.init]
  stores := by simp [Assembly.init]
  removing := by simp [Assembly.init]

theorem setMemory (h : Upholds S l) (key : CacheKey) {found : Option CacheEntry}
    (hput : ∀ entry, found = some entry → WasPut l.world.shared.written key entry) :
    Upholds S (l.setMemory key found) :=
  { h with
    memory := by
      intro key' entry hentry
      by_cases hkey : key' = key
      · subst hkey
        exact hput entry (by simpa [Assembly.setMemory] using hentry)
      · exact h.memory key' entry (by simpa [Assembly.setMemory, hkey] using hentry) }

theorem setStore (h : Upholds S l) {d : Nat} {storing : Option Storing}
    (hput : ∀ st, storing = some st → ∃ t, l.world.shared.tasks d = some t ∧
      t.phase = .received ∧ (t.key, st.entry) ∈ l.world.shared.written) :
    Upholds S (l.setStore d storing) :=
  { h with
    stores := by
      intro d' st hst
      by_cases hd : d' = d
      · subst hd
        exact hput st (by simpa [Assembly.setStore] using hst)
      · exact h.stores d' st (by simpa [Assembly.setStore, hd] using hst) }

/-- The entry stays the same while it is stored. -/
theorem goOn (h : Upholds S l) {d : Nat} {entry : CacheEntry} {phase phase' : PutPhase}
    (hd : l.stores d = some ⟨entry, phase⟩) : Upholds S (l.setStore d (some ⟨entry, phase'⟩)) := by
  refine h.setStore ?_
  intro st hst
  cases hst
  have hold := h.stores d ⟨entry, phase⟩ hd
  exact hold

/-- A task begins to store an entry, which counts as put from now on. -/
theorem beginStore (h : Upholds S l) {d : Nat} {t : Task ι} (entry : CacheEntry)
    (ht : l.world.shared.tasks d = some t) (hphase : t.phase = .received) :
    Upholds S (l.beginStore d t.key entry) := by
  have hmore : ∀ p ∈ l.world.shared.written, p ∈ l.world.shared.written ++ [(t.key, entry)] :=
    fun p hp => List.mem_append_left _ hp
  exact {
    disk := h.disk
    puts := fun p hp => hmore p (h.puts p hp)
    memory := fun key held hheld => wasPut_of_subset (h.memory key held hheld) hmore
    lookups := fun c lookup held hlookup hheld =>
      wasPut_of_subset (h.lookups c lookup held hlookup hheld) hmore
    stores := by
      intro d' storing hstoring
      by_cases hd : d' = d
      · subst hd
        have heq : storing = ⟨entry, .first entry⟩ := by
          simpa [Assembly.beginStore] using hstoring.symm
        subst heq
        exact ⟨t, ht, hphase, by simp [Assembly.beginStore]⟩
      · rcases h.stores d' storing (by simpa [Assembly.beginStore, hd] using hstoring) with
          ⟨t', ht', hphase', hmem⟩
        exact ⟨t', ht', hphase', hmore _ hmem⟩
    removing := h.removing }

/-- The disk moves; whoever holds the lock for a removal still only removes. -/
theorem setDisk (h : Upholds S l) {disk : Cache.Shared} (holder : Option (Holder ι))
    (hdisk : disk.Inv S) (hputs : ∀ p ∈ disk.puts, p ∈ l.world.shared.written)
    (hremoving : ∀ c cache, holder = some (.get c cache) →
      ∃ rest, disk.writer = .busy rest ∧ rest.OnlyCalls FileOp.Shrinks) :
    Upholds S { l with disk := disk, holder := holder } :=
  { h with disk := hdisk, puts := hputs, removing := hremoving }

theorem setWorld (h : Upholds S l) {w' : World ι} (hleaves : LeavesCache l w'.shared) :
    Upholds S { l with world := w' } where
  disk := h.disk
  puts := by
    show ∀ p ∈ l.disk.puts, p ∈ w'.shared.written
    rw [hleaves.written]
    exact h.puts
  memory := by
    show ∀ key entry, w'.shared.cache key = some entry → WasPut w'.shared.written key entry
    rw [hleaves.written, hleaves.cache]
    exact h.memory
  lookups := by
    show ∀ c lookup entry, l.lookups c = some lookup → lookup.phase.copy = some entry →
      WasPut w'.shared.written lookup.key entry
    rw [hleaves.written]
    exact h.lookups
  stores := by
    intro d storing hstoring
    rcases h.stores d storing hstoring with ⟨t, ht, hphase, hmem⟩
    exact ⟨t, (hleaves.tasks d storing hstoring).trans ht, hphase, hleaves.written ▸ hmem⟩
  removing := h.removing

/-- The get of the disk is dropped. -/
theorem dropReading (h : Upholds S l) (id : Nat) :
    Upholds S { l with disk := l.disk.setGet id none } := by
  refine h.setDisk l.holder ?_ h.puts h.removing
  refine { writer := h.disk.writer, gets := ?_ }
  intro id' key rest hget
  exact Cache.Shared.gets_setGet
    (P := fun key rest => Reading S l.disk.puts key l.disk.files rest) (by simp) h.disk.gets hget

/-- A removal is cut, and the index stays as it was. -/
theorem dropRemoving (h : Upholds S l) {c : ι} {cache : DiskCache}
    (hholder : l.holder = some (.get c cache)) :
    Upholds S
      { l with
        disk := { l.disk with writer := .idle cache }
        holder := none } := by
  refine h.setDisk none ?_ h.puts (by simp)
  refine { writer := ?_, gets := h.disk.gets }
  -- a program that only removes writes to no file
  rcases h.removing c cache hholder with ⟨rest, hwriter, hshrinks⟩
  have hsound := h.disk.writer.sound
  have hnone : l.disk.writer.pending.bind writtenBy = none := by
    rw [hwriter]
    cases rest with
    | ret a => rfl
    | call op next =>
        have hop : op.Shrinks := hshrinks.1
        cases op <;> first | rfl | exact hop.elim
  rw [hnone] at hsound
  exact hsound

variable [DecidableEq ι]

theorem setLookup (h : Upholds S l) {c : ι} {lookup : Option Lookup}
    (hcopy : ∀ lk entry, lookup = some lk → lk.phase.copy = some entry →
      WasPut l.world.shared.written lk.key entry) :
    Upholds S (l.setLookup c lookup) :=
  { h with
    lookups := by
      intro c' lk entry hlookup hentry
      by_cases hc : c' = c
      · subst hc
        exact hcopy lk entry (by simpa [Assembly.setLookup] using hlookup) hentry
      · exact h.lookups c' lk entry (by simpa [Assembly.setLookup, hc] using hlookup) hentry }

theorem leaveGet (h : Upholds S l) (c : ι) (th : Thread) : Upholds S (l.leaveGet c th) := by
  have hworld : Upholds S { l with world := l.world.setThread c th } := h.setWorld (.refl l)
  exact hworld.setLookup (by simp)

/-- What every step keeps when gets and writer of the disk keep apart. -/
theorem step {l' : Assembly ι} {a : AssemblyAction ι} (h : Upholds S l) (hS : S.RoundTrip)
    (hspawn : ∀ c d, (l.world.threads c).Starting d → l.stores d = none)
    (hstep : AssemblyStep S E l a l') (hapart : l.Apart S a) : Upholds S l' := by
  cases hstep with
  | outside hout hstep =>
      exact h.setWorld (hstep.leavesCache hout hspawn)
  | lookup _ _ =>
      refine h.setLookup ?_
      rintro lk entry ⟨rfl⟩ hcopy
      cases hcopy
  | @memoryGet c time key hlookup =>
      refine h.setLookup ?_
      rintro lk entry ⟨rfl⟩ hcopy
      exact h.memory key entry (LookupPhase.copy_afterMemory hcopy)
  | @memoryRemove c key _ =>
      have hforgot : Upholds S (l.setMemory key none) := h.setMemory key (by simp)
      refine hforgot.setLookup ?_
      rintro lk entry ⟨rfl⟩ hcopy
      cases hcopy
  | @diskGet c id key disk _ hdisk =>
      have hinv := hdisk.inv hS trivial h.disk
      cases hdisk with
      | get _ =>
          have hmoved := h.setDisk l.holder hinv h.puts h.removing
          refine hmoved.setLookup ?_
          rintro lk entry ⟨rfl⟩ hcopy
          cases hcopy
  | read hdisk =>
      have hinv := hdisk.inv hS hapart h.disk
      cases hdisk with
      | read _ _ => exact h.setDisk l.holder hinv h.puts h.removing
  | @answer c time id key r disk _ hget hdisk =>
      have hinv := hdisk.inv hS trivial h.disk
      -- a get that is over has found one entry as a whole
      have hfound := h.disk.untorn id key r hget
      cases hdisk with
      | answer _ =>
          have hmoved := h.setDisk l.holder hinv h.puts h.removing
          refine hmoved.setLookup ?_
          rintro lk entry ⟨rfl⟩ hcopy
          have hr := LookupPhase.copy_afterDisk hcopy
          rcases hfound with hnone | ⟨found, hsome, hput⟩
          · cases hr.symm.trans hnone
          · cases hr.symm.trans hsome
            exact wasPut_of_subset hput h.puts
  | @promote c key entry hlookup =>
      have hput := h.lookups c _ entry hlookup rfl
      have hmemory : Upholds S (l.setMemory key (some entry)) := by
        refine h.setMemory key ?_
        rintro held ⟨rfl⟩
        exact hput
      refine hmemory.setLookup ?_
      rintro lk held ⟨rfl⟩ hcopy
      cases hcopy
      exact hput
  | @diskRemove c key cache disk _ _ _ hdisk =>
      have hinv := hdisk.inv hS trivial h.disk
      cases hdisk with
      | @remove cache' _ _ =>
          exact h.setDisk _ hinv h.puts (fun _ _ _ => ⟨_, rfl, remove_shrinks key cache'⟩)
  | removed _ _ hdisk =>
      have hinv := hdisk.inv hS trivial h.disk
      cases hdisk with
      | done _ =>
          have hmoved := h.setDisk none hinv h.puts (by simp)
          refine hmoved.setLookup ?_
          rintro lk entry ⟨rfl⟩ hcopy
          cases hcopy
  | resume _ _ | drop _ _ _ => exact h.leaveGet _ _
  | dropReading _ _ => exact (h.dropReading _).leaveGet _ _
  | dropRemoving _ hholder => exact (h.dropRemoving hholder).leaveGet _ _
  | store hlen ht hphase _ _ => exact h.beginStore _ ht hphase
  | storeNothing hlen ht hphase hd _ =>
      exact h.setWorld ((LeavesCache.refl l).spawn hd _)
  | @diskPut d t entry disk ht hd _ hdisk =>
      have hinv := hdisk.inv hS trivial h.disk
      rcases h.stores d _ hd with ⟨t', ht', -, hmem⟩
      cases ht.symm.trans ht'
      cases hdisk with
      | put _ =>
          refine h.setDisk _ hinv ?_ (by simp)
          intro p hp
          rcases List.mem_append.1 hp with hold | hnew
          · exact h.puts p hold
          · rw [List.mem_singleton.1 hnew]
            exact hmem
  | write hdisk =>
      have hinv := hdisk.inv hS hapart h.disk
      cases hdisk with
      | write hwriter hstep =>
          refine h.setDisk l.holder hinv h.puts ?_
          intro c cache hholder
          rcases h.removing c cache hholder with ⟨rest, hrest, hshrinks⟩
          cases hwriter.symm.trans hrest
          exact ⟨_, rfl, onlyCalls_of_step hshrinks hstep⟩
  | written hd _ _ hdisk =>
      have hinv := hdisk.inv hS trivial h.disk
      cases hdisk with
      | done _ =>
          have hmoved := h.setDisk none hinv h.puts (by simp)
          exact hmoved.goOn hd
  | @memoryPut d t entry ht hd =>
      rcases h.stores d _ hd with ⟨t', ht', -, hmem⟩
      cases ht.symm.trans ht'
      have hmemory : Upholds S (l.setMemory t.key (some entry)) := by
        refine h.setMemory t.key ?_
        rintro held ⟨rfl⟩
        exact ⟨t.key, hmem, rfl⟩
      exact hmemory.goOn hd
  | @stored d t entry r _ _ =>
      have hstored : Upholds S (l.setStore d none) := h.setStore (by simp)
      have hnone : (l.setStore d none).stores d = none := by
        simp [Assembly.setStore]
      exact hstored.setWorld ((LeavesCache.refl _).spawn hnone _)
  | evict => exact h.setMemory _ (by simp)

end Upholds

/-! ## One step -/

section Match

variable {S : Serde} {l l' : Assembly ι} {cache : CacheKey → Option CacheEntry}

theorem flat_setTask {d : Nat} (hd : l.stores d = none) (t : Task ι) :
    (l.setTask d t).world.flat l.stores cache = (l.world.flat l.stores cache).setTask d t :=
  World.ext (Shared.flat_spawn hd _ _) rfl

/-- The entry has been stored, and the task is what it counted as, or has panicked. -/
theorem flat_stored {d : Nat} {t : Task ι} {storing : Storing}
    (ht : l.world.shared.tasks d = some t) (hd : l.stores d = some storing)
    (cache : CacheKey → Option CacheEntry) (phase : TaskPhase) :
    (((l.setTask d { t with phase := phase }).setStore d none).world.flat
        (Function.update l.stores d none) cache) =
      (l.world.flat l.stores cache).setTask d { t with phase := phase } := by
  refine World.ext ?_ rfl
  ext d' : 2
  case tasks =>
    by_cases hne : d' = d
    · subst hne
      simp [World.flat, Shared.flat, Assembly.setStore, Assembly.setTask, World.setTask,
        Shared.spawn, Task.taken]
    · simp [World.flat, Shared.flat, Assembly.setStore, Assembly.setTask, World.setTask,
        Shared.spawn, hne]
  all_goals rfl

variable [DecidableEq ι]

/-- From the first assembly the second is reached over one cache. -/
def ReachesFlat (E : Env ι) (cache : CacheKey → Option CacheEntry) (l l' : Assembly ι) : Prop :=
  ∃ bs cache', Run (WorldStep E) (l.world.flat l.stores cache) bs (l'.world.flat l'.stores cache')

/-- Nothing has happened over one cache. -/
theorem ReachesFlat.stutter
    (h : l'.world.flat l'.stores cache = l.world.flat l.stores cache) :
    ReachesFlat E cache l l' :=
  ⟨[], cache, h ▸ .nil _⟩

theorem ReachesFlat.single {a : WorldAction ι} (cache' : CacheKey → Option CacheEntry)
    (h : WorldStep E (l.world.flat l.stores cache) a (l'.world.flat l'.stores cache')) :
    ReachesFlat E cache l l' :=
  ⟨[a], cache', .single h⟩

/-- What a `get` returns the one cache can have at that moment. -/
theorem Upholds.reaches_resume (h : Upholds S l) {c : ι} {key : CacheKey}
    {r : Outcome (Option CacheEntry)}
    {next : Outcome (Option CacheEntry) → HandlerProg (Outcome ClientResponse)}
    (hth : l.world.threads c = .running (.call (.cacheGet key) next))
    (hlookup : l.lookups c = some ⟨key, .returned r⟩) :
    ReachesFlat E cache l (l.leaveGet c (.running (next r))) := by
  have hcall : ∀ cache', (r = .ok (cache' key) ∨ ∃ e, r = .error e) →
      WorldStep E (l.world.flat l.stores cache') (.call c)
        ((l.leaveGet c (.running (next r))).world.flat l.stores cache') := by
    intro cache' hr
    exact .call (w := l.world.flat l.stores cache') hth ⟨rfl, hr⟩
  rcases r with e | _ | entry
  · exact .single cache (hcall cache (.inr ⟨e, rfl⟩))
  -- what is not found has been forgotten
  · have hevict : WorldStep E (l.world.flat l.stores cache) (.move (.evict key))
        (l.world.flat l.stores (Function.update cache key none)) :=
      .move (w := l.world.flat l.stores cache) id .evict
    exact ⟨_, _, (Run.single hevict).snoc (hcall _ (.inl (by simp)))⟩
  -- what is found was put, and is there again
  · rcases h.lookups c _ entry hlookup rfl with ⟨key', hmem, hhash⟩
    have hrestore : WorldStep E (l.world.flat l.stores cache) (.move (.restore key entry))
        (l.world.flat l.stores (Function.update cache key (some entry))) :=
      .move (w := l.world.flat l.stores cache) id (.restore hmem hhash)
    exact ⟨_, _, (Run.single hrestore).snoc (hcall _ (.inl (by simp)))⟩

/-- An entry is put into the one cache as soon as its task begins to store it. -/
theorem reaches_store {d now : Nat} {t : Task ι} {entry : CacheEntry}
    (hlen : t.cacheBuf.length < 2 ^ 63) (ht : l.world.shared.tasks d = some t)
    (hphase : t.phase = .received) (hd : l.stores d = none)
    (hentry : State.stored E t now hlen = some entry) :
    ReachesFlat E cache l (l.beginStore d t.key entry) := by
  have hfind : (l.world.flat l.stores cache).shared.tasks d = some t :=
    (Shared.tasks_flat _ hd).trans ht
  have hmove := WorldStep.move (w := l.world.flat l.stores cache) id
    (@Step.store ι _ E _ d t now hlen hfind hphase)
  refine .single (a := .move (.store d now)) (Function.update cache t.key (some entry)) ?_
  convert hmove using 1
  refine World.ext ?_ rfl
  ext d' : 2
  case tasks =>
    by_cases hne : d' = d
    · subst hne
      simp [Assembly.beginStore, World.flat, Shared.flat, State.shared, ht, Task.taken]
    · simp [Assembly.beginStore, World.flat, Shared.flat, State.shared, State.store,
        Shared.toState, hne]
  case cache =>
    simp [Assembly.beginStore, World.flat, Shared.flat, State.shared, State.store,
      Shared.toState, hentry]
  case written =>
    simp [Assembly.beginStore, World.flat, Shared.flat, State.shared, State.store,
      Shared.toState, hentry]
  all_goals rfl

/-- What is not to be cached is not stored over one cache either. -/
theorem reaches_storeNothing {d now : Nat} {t : Task ι} (hlen : t.cacheBuf.length < 2 ^ 63)
    (ht : l.world.shared.tasks d = some t) (hphase : t.phase = .received)
    (hd : l.stores d = none) (hentry : State.stored E t now hlen = none) :
    ReachesFlat E cache l (l.setTask d { t with phase := .succeeded }) := by
  have hfind : (l.world.flat l.stores cache).shared.tasks d = some t :=
    (Shared.tasks_flat _ hd).trans ht
  have hmove := WorldStep.move (w := l.world.flat l.stores cache) id
    (@Step.store ι _ E _ d t now hlen hfind hphase)
  refine .single (a := .move (.store d now)) cache ?_
  convert hmove using 1
  refine (flat_setTask hd _).trans (World.ext ?_ rfl)
  ext d' : 2
  case cache =>
    simp [World.flat, Shared.flat, State.shared, State.store, World.setTask, Shared.spawn,
      Shared.toState, hentry]
  case written =>
    simp [World.flat, Shared.flat, State.shared, State.store, World.setTask, Shared.spawn,
      Shared.toState, hentry]
  all_goals rfl

/-- The put returns: nothing new, unless it has panicked. -/
theorem reaches_stored {d : Nat} {t : Task ι} {storing : Storing}
    (ht : l.world.shared.tasks d = some t) (hd : l.stores d = some storing) (r : Outcome Unit) :
    ReachesFlat E cache l ((l.setTask d { t with phase := phaseAfterPut r }).setStore d none) := by
  have hfind : (l.world.flat l.stores cache).shared.tasks d =
      some { t with phase := .succeeded } := by
    simp [World.flat, Shared.flat, ht, hd, Task.taken]
  have hsame : (l.world.flat l.stores cache).setTask d { t with phase := .succeeded } =
      l.world.flat l.stores cache := by
    refine World.ext ?_ rfl
    ext d' : 2
    case tasks =>
      by_cases hne : d' = d
      · subst hne
        simp [World.setTask, Shared.spawn, hfind]
      · simp [World.setTask, Shared.spawn, hne]
    all_goals rfl
  have hflat := flat_stored ht hd cache
  rcases r with (e | _) | _
  · exact .stutter ((hflat .succeeded).trans hsame)
  · refine .single (a := .move (.panic d)) cache ?_
    have hmove := WorldStep.move (w := l.world.flat l.stores cache) id
      (Step.panic (E := E) hfind (by simp [TaskPhase.Running, TaskPhase.Live]))
    convert hmove using 1
    exact hflat .panicked
  · exact .stutter ((hflat .succeeded).trans hsame)

/-- A step of handlers, tasks or tiers is one or two steps over one cache, or none. -/
theorem Upholds.reaches (h : Upholds S l) {a : AssemblyAction ι}
    (hspawn : ∀ c d, (l.world.threads c).Starting d → l.stores d = none)
    (hstep : AssemblyStep S E l a l') (cache : CacheKey → Option CacheEntry) :
    ReachesFlat E cache l l' := by
  have hgone : ∀ {c : ι} {key : CacheKey}
      {next : Outcome (Option CacheEntry) → HandlerProg (Outcome ClientResponse)},
      l.world.threads c = .running (.call (.cacheGet key) next) →
      WorldStep E (l.world.flat l.stores cache) (.close c)
        ((l.world.flat l.stores cache).setThread c .closed) :=
    fun hth => .closeSuspended hth trivial
  cases hstep with
  | outside hout hstep => exact .single cache (hstep.flat hout hspawn cache)
  | lookup _ _ | memoryGet _ | memoryRemove _ | diskGet _ _ | read _ | answer _ _ _ | promote _
  | diskRemove _ _ _ _ | removed _ _ _ | diskPut _ _ _ _ | write _ | evict =>
      exact .stutter rfl
  | resume hth hlookup => exact h.reaches_resume hth hlookup
  | drop hth _ _ | dropReading hth _ | dropRemoving hth _ => exact .single cache (hgone hth)
  | store hlen ht hphase hd hentry => exact reaches_store hlen ht hphase hd hentry
  | storeNothing hlen ht hphase hd hentry => exact reaches_storeNothing hlen ht hphase hd hentry
  | written hd _ _ _ | memoryPut _ hd =>
      exact .stutter (World.ext (Shared.flat_update hd _) rfl)
  | stored ht hd => exact reaches_stored ht hd _

end Match

/-! ## Any run -/

section Runs

variable {S : Serde} {l : Assembly ι}

/-- A download that is about to be spawned stores nothing. -/
theorem Upholds.spawning (h : Upholds S l) {cache : CacheKey → Option CacheEntry}
    (hknown : Known E (l.world.flat l.stores cache)) (c : ι) (d : Nat)
    (hstarting : (l.world.threads c).Starting d) : l.stores d = none := by
  rcases hknown with ⟨s, hrep, -, -⟩
  have hnone := (hrep.starting c d hstarting).1
  cases hd : l.stores d with
  | none => rfl
  | some storing =>
      rcases h.stores d storing hd with ⟨t, ht, -, -⟩
      simp [World.flat, Shared.flat, ht] at hnone

variable [DecidableEq ι]

theorem upholds_of_run (hS : S.RoundTrip) {maxSize : Nat} {as : List (AssemblyAction ι)}
    (hrun : Run (Guarded (AssemblyStep S E) (Assembly.Apart S)) (.init E maxSize) as l) :
    Upholds S l ∧
      ∃ bs cache, Run (WorldStep E) (World.init E) bs (l.world.flat l.stores cache) := by
  refine hrun.invariant (I := fun l => Upholds S l ∧
    ∃ bs cache, Run (WorldStep E) (World.init E) bs (l.world.flat l.stores cache)) ?_
    ⟨.init maxSize, [], fun _ => none, .nil (World.init E)⟩
  rintro l a l' ⟨h, bs, cache, hbs⟩ hstep
  have hspawn := h.spawning (known_of_run hbs)
  rcases h.reaches hspawn hstep.1 cache with ⟨cs, cache', hcs⟩
  exact ⟨h.step hS hspawn hstep.1 hstep.2, bs ++ cs, cache', hbs.append hcs⟩

/-- Over the two tiers handlers and tasks do nothing that they cannot do over one cache: every run
in which gets and writer of the disk keep apart leaves all handlers, and all tasks that are not just
storing their entry, as a run over one cache does. -/
theorem flat_of_run (hS : S.RoundTrip) {maxSize : Nat} {as : List (AssemblyAction ι)}
    (hrun : Run (Guarded (AssemblyStep S E) (Assembly.Apart S)) (.init E maxSize) as l) :
    ∃ bs cache, Run (WorldStep E) (World.init E) bs (l.world.flat l.stores cache) :=
  (upholds_of_run hS hrun).2

end Runs

/-- One client finds neither tier to have the page and downloads it, and another one then gets it
from memory. -/
theorem exists_run_tiers :
    ∃ as, ∃ l : Assembly Nat, ∃ entry now,
      Run (Guarded (AssemblyStep exampleSerde exampleEnv) (Assembly.Apart exampleSerde))
        (.init exampleEnv 1024) as l ∧
      l.world.threads 1 = .answered (buildResponseFromCache entry now) := by
  have hout : ∀ {l : Assembly Nat} {c : Nat} (op : HandlerOp)
      {next : op.Answer → HandlerProg (Outcome ClientResponse)},
      l.world.threads c = .running (.call op next) → (∀ key, op ≠ .cacheGet key) →
      l.Outside (.call c) := by
    intro l c op next hth hop key next' heq
    cases hth.symm.trans heq
    exact hop key rfl
  have hmove : ∀ {l : Assembly Nat} {a : Action Nat}, l.stores = (fun _ => none) →
      ¬ a.UsesCache → l.Outside (.move a) := by
    intro l a hstores ha
    exact ⟨ha, fun d _ => congrFun hstores d⟩
  have hrun : Run (Guarded (AssemblyStep exampleSerde exampleEnv) (Assembly.Apart exampleSerde))
      (.init exampleEnv 1024)
      [.lookup 0, .memoryGet 0 0, .diskGet 0 0, .read 0, .answer 0 0, .resume 0,
        .outside (.call 0), .outside (.call 0), .outside (.call 0), .outside (.move (.fetch 0)),
        .outside (.move (.respond 0 ⟨200, []⟩)), .outside (.move (.chunk 0 [104, 105])),
        .outside (.move (.bodyEnd 0)), .store 0 0, .memoryPut 0, .stored 0,
        .lookup 1, .memoryGet 1 0, .resume 1, .outside (.call 1), .outside (.reply 1)] _ :=
    .cons ⟨.lookup (threads_init served_exampleEnv.1) rfl, trivial⟩ <|
    .cons ⟨.memoryGet rfl, trivial⟩ <|
    .cons ⟨.diskGet rfl (.get rfl), trivial⟩ <|
    .cons ⟨.read (.read rfl (step_of_apply (.openFile _) _ rfl)),
      Cache.Apart.of_idle (S := exampleSerde) rfl 0⟩ <|
    .cons ⟨.answer rfl rfl (.answer rfl), trivial⟩ <|
    .cons ⟨.resume (threads_init served_exampleEnv.1) rfl, trivial⟩ <|
    .cons ⟨.outside (hout _ rfl (by simp)) (.call rfl ⟨rfl, rfl⟩), trivial⟩ <|
    .cons ⟨.outside (hout _ rfl (by simp)) (.call rfl ⟨rfl, rfl⟩), trivial⟩ <|
    .cons ⟨.outside (hout _ rfl (by simp)) (.call (r := ()) rfl rfl), trivial⟩ <|
    .cons ⟨.outside (hmove rfl id) (.move id (.fetch rfl rfl)), trivial⟩ <|
    .cons ⟨.outside (hmove rfl id) (.move id (.respond rfl rfl)), trivial⟩ <|
    .cons ⟨.outside (hmove rfl id) (.move id (.chunk rfl rfl rfl (by decide))), trivial⟩ <|
    .cons ⟨.outside (hmove rfl id) (.move id (.bodyEnd rfl rfl)), trivial⟩ <|
    .cons ⟨.store (by decide) rfl rfl rfl
      (State.stored_of_cacheable rfl rfl storedTtl_exampleEnv), trivial⟩ <|
    .cons ⟨.memoryPut rfl rfl, trivial⟩ <| .cons ⟨.stored rfl rfl, trivial⟩ <|
    .cons ⟨.lookup (threads_init served_exampleEnv.2) rfl, trivial⟩ <|
    .cons ⟨.memoryGet rfl, trivial⟩ <|
    .cons ⟨.resume (threads_init served_exampleEnv.2) rfl, trivial⟩ <|
    .cons ⟨.outside (hout .now rfl (by simp))
      (@WorldStep.call _ _ exampleEnv _ 1 .now _ (0 : Nat) _ rfl rfl), trivial⟩ <|
    .cons ⟨.outside trivial (.reply rfl), trivial⟩ <| .nil _
  exact ⟨_, _, _, _, hrun, rfl⟩

theorem flat_of_run_cached :
    ∃ (l : Assembly Nat) (entry : CacheEntry) (now : Nat),
      l.world.threads 1 = .answered (buildResponseFromCache entry now) ∧
      ∃ bs cache, Run (WorldStep exampleEnv) (World.init exampleEnv) bs
        (l.world.flat l.stores cache) := by
  rcases exists_run_tiers with ⟨as, l, entry, now, hrun, hthread⟩
  exact ⟨l, entry, now, hthread, flat_of_run exampleSerde_roundTrip hrun⟩

/-! ## What is sent -/

theorem Sent.of_flat {w : World ι} {c : ι} {stores : Nat → Option Storing}
    {cache : CacheKey → Option CacheEntry} {th : Thread} (h : Sent E (w.flat stores cache) c th) :
    Sent E w c th := by
  -- upstream's answer is the same, whatever the phase of the task
  have hback : ∀ {d : Nat} {t : Task ι} {resp : Response},
      AnsweredFor E (w.flat stores cache) c d t resp →
      ∃ t', AnsweredFor E w c d t' resp ∧ t.bodyComplete = t'.bodyComplete ∧
        t.upstream = t'.upstream := by
    rintro d t resp ⟨htask, hresponse, hrequest⟩
    rcases Option.map_eq_some_iff.1 htask with ⟨t', ht', rfl⟩
    cases hstoring : stores d with
    | none =>
        rw [hstoring] at hresponse hrequest
        exact ⟨t', ⟨ht', hresponse, hrequest⟩, rfl, rfl⟩
    | some storing =>
        rw [hstoring] at hresponse hrequest
        exact ⟨t', ⟨ht', hresponse, hrequest⟩, rfl, rfl⟩
  cases h with
  | page hpage => exact .page hpage
  | cached hanswered hcomplete hstatus hheaders hdata =>
      rcases hback hanswered with ⟨t', hanswered', hsame, hupstream⟩
      exact .cached hanswered' (hsame ▸ hcomplete) hstatus hheaders (hupstream ▸ hdata)
  | streamed hanswered hhead hprefix =>
      rcases hback hanswered with ⟨t', hanswered', -, hupstream⟩
      exact .streamed hanswered' hhead (hupstream ▸ hprefix)

variable [DecidableEq ι]

/-- Over two tiers and their files, too, whatever the client of a request for a page is sent is the
page of an error or upstream's answer to a request for the same thing. -/
theorem sent_of_run_tiers {S : Serde} {l : Assembly ι} {c : ι} (hS : S.RoundTrip)
    (hplain : ∀ c, Plain (E.request c)) (hsep : Separating E) {maxSize : Nat}
    {as : List (AssemblyAction ι)}
    (hrun : Run (Guarded (AssemblyStep S E) (Assembly.Apart S)) (.init E maxSize) as l)
    (hserved : Served E.config.security (E.request c))
    (hrunning : ∀ p, l.world.threads c ≠ .running p) (hclosed : l.world.threads c ≠ .closed) :
    Sent E l.world c (l.world.threads c) := by
  rcases upholds_of_run hS hrun with ⟨-, bs, cache, hbs⟩
  exact (sent_of_run hplain hsep hbs hserved hrunning hclosed).of_flat

theorem sent_of_run_tiers_cached :
    ∃ (l : Assembly Nat) (entry : CacheEntry) (now : Nat),
      l.world.threads 1 = .answered (buildResponseFromCache entry now) ∧
      Sent exampleEnv l.world 1 (l.world.threads 1) := by
  rcases exists_run_tiers with ⟨as, l, entry, now, hrun, hthread⟩
  exact ⟨l, entry, now, hthread, sent_of_run_tiers exampleSerde_roundTrip plain_exampleEnv
    separating_exampleEnv hrun served_exampleEnv.2 (by simp [hthread]) (by simp [hthread])⟩

end Inflight
end Squiddish
