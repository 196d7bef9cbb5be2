import Squiddish.Cache.Restarts
import Squiddish.Cache.Tiered

/-!
# Lookups — what a get does to an entry that was put behind its back

`TieredCache::get` takes a copy of an entry, judges it, and then acts on a tier: it removes an entry
that has expired, or puts one from the disk into memory.  No lock is held in between, and gets and
puts of any number run at the same time.  Each operation on a tier is one step.

`NoUndo` says that no get is about to remove or overwrite an entry that was put after it took its
copy.  The steps that keep this are the `Undisturbed` ones.
-/

namespace Squiddish
namespace Cache

open Lib

/-! ## Gets and puts -/

/-- What a get does next, with the step at which it took the copy it holds. -/
inductive GetPhase
  /-- The memory tier is asked. -/
  | arrived
  /-- The copy from memory has expired and is removed there. -/
  | expiredMemory (entry : CacheEntry) (taken : Nat)
  /-- The disk tier is asked. -/
  | missed
  /-- The copy from the disk, which was put there in the step `put`, goes to memory. -/
  | promoting (entry : CacheEntry) (put taken : Nat)
  /-- The copy from the disk has expired and is removed there. -/
  | expiredDisk (entry : CacheEntry) (taken : Nat)
  | returned (r : Outcome (Option CacheEntry))

structure PendingGet where
  key : CacheKey
  phase : GetPhase

inductive PutPhase
  | disk
  | memory
  | returned (r : Outcome Unit)

structure PendingPut where
  key : CacheKey
  entry : CacheEntry
  phase : PutPhase

/-- The get has still to remove or overwrite in memory what it judged by this copy. -/
def GetPhase.memoryTaken : GetPhase → Option Nat
  | .expiredMemory _ taken => some taken
  | .promoting _ _ taken => some taken
  | _ => none

/-- The get has still to remove from the disk what it judged by this copy. -/
def GetPhase.diskTaken : GetPhase → Option Nat
  | .expiredDisk _ taken => some taken
  | _ => none

/-! ## The state -/

/-- Both tiers with the gets and puts that are under way.  `memoryPut` and `diskPut` tell at which
step the entry in memory, or on the disk, was put. -/
structure Traffic where
  memory : CacheKey → Option CacheEntry
  disk : OpenCache
  gets : Nat → Option PendingGet
  puts : Nat → Option PendingPut
  now : Nat
  memoryPut : CacheKey → Nat
  diskPut : Str → Nat

namespace Traffic

/-- Nothing is under way. -/
def init (memory : CacheKey → Option CacheEntry) (disk : OpenCache) : Traffic where
  memory := memory
  disk := disk
  gets := fun _ => none
  puts := fun _ => none
  now := 0
  memoryPut := fun _ => 0
  diskPut := fun _ => 0

def setGet (s : Traffic) (id : Nat) (get : Option PendingGet) : Traffic :=
  { s with gets := Function.update s.gets id get, now := s.now + 1 }

def setPut (s : Traffic) (id : Nat) (put : Option PendingPut) : Traffic :=
  { s with puts := Function.update s.puts id put, now := s.now + 1 }

/-- The memory tier now holds an entry that was put in the step `put`. -/
def remember (s : Traffic) (key : CacheKey) (entry : CacheEntry) (put : Nat) : Traffic :=
  { s with
    memory := Function.update s.memory key (some entry)
    memoryPut := Function.update s.memoryPut key put }

def forget (s : Traffic) (key : CacheKey) : Traffic :=
  { s with memory := Function.update s.memory key none }

end Traffic

/-- The memory tier has answered at the step `now`. -/
def afterMemoryGet (found : Option CacheEntry) (time now : Nat) : GetPhase :=
  match found with
  | some entry =>
      if entry.isExpired time then .expiredMemory entry now else .returned (.ok (some entry))
  | none => .missed

/-- The disk tier has answered at the step `now`, with an entry of the step `put`. -/
def afterDiskGet (r : Outcome (Option CacheEntry)) (time put now : Nat) : GetPhase :=
  match r with
  | .error e => .returned (.error e)
  | .ok none => .returned (.ok none)
  | .ok (some entry) =>
      if entry.isExpired time then .expiredDisk entry now else .promoting entry put now

/-- Entries of more than 1 MiB go to the disk first. -/
def PutPhase.first (entry : CacheEntry) : PutPhase :=
  if 1024 * 1024 < entry.size then .disk else .memory

/-- The disk tier has taken the entry, or the put fails. -/
def PutPhase.afterDisk : Outcome Unit → PutPhase
  | .ok _ => .memory
  | .error e => .returned (.error e)

inductive TrafficAction
  | get (id : Nat) (key : CacheKey)
  | memoryGet (id time : Nat)
  | memoryRemove (id : Nat)
  | diskGet (id time : Nat)
  | promote (id : Nat)
  | diskRemove (id : Nat)
  | put (id : Nat) (key : CacheKey) (entry : CacheEntry)
  | diskPut (id : Nat)
  | memoryPut (id : Nat)
  | evict (key : CacheKey)
  | cancel (id : Nat)

inductive TrafficStep (S : Serde) : Traffic → TrafficAction → Traffic → Prop
  | get {s : Traffic} {id : Nat} {key : CacheKey} :
      s.gets id = none →
      TrafficStep S s (.get id key) (s.setGet id (some ⟨key, .arrived⟩))
  | memoryGet {s : Traffic} {id time : Nat} {key : CacheKey} :
      s.gets id = some ⟨key, .arrived⟩ →
      TrafficStep S s (.memoryGet id time)
        (s.setGet id (some ⟨key, afterMemoryGet (s.memory key) time s.now⟩))
  | memoryRemove {s : Traffic} {id taken : Nat} {key : CacheKey} {entry : CacheEntry} :
      s.gets id = some ⟨key, .expiredMemory entry taken⟩ →
      TrafficStep S s (.memoryRemove id) ((s.forget key).setGet id (some ⟨key, .missed⟩))
  | diskGet {s : Traffic} {id time : Nat} {key : CacheKey} :
      s.gets id = some ⟨key, .missed⟩ →
      TrafficStep S s (.diskGet id time)
        (s.setGet id (some ⟨key, afterDiskGet (perform (DiskCache.get S key) s.disk.files).1 time
          (s.diskPut key.hashHex) s.now⟩))
  | promote {s : Traffic} {id put taken : Nat} {key : CacheKey} {entry : CacheEntry} :
      s.gets id = some ⟨key, .promoting entry put taken⟩ →
      TrafficStep S s (.promote id)
        ((s.remember key entry put).setGet id (some ⟨key, .returned (.ok (some entry))⟩))
  | diskRemove {s : Traffic} {id taken : Nat} {key : CacheKey} {entry : CacheEntry}
      {r : Outcome Unit} {disk : OpenCache} :
      s.gets id = some ⟨key, .expiredDisk entry taken⟩ →
      perform (DiskCache.remove key s.disk.cache) s.disk.files = ((r, disk.cache), disk.files) →
      TrafficStep S s (.diskRemove id)
        ({ s with disk := disk }.setGet id (some ⟨key, .returned (.ok none)⟩))
  | put {s : Traffic} {id : Nat} {key : CacheKey} {entry : CacheEntry} :
      s.puts id = none →
      TrafficStep S s (.put id key entry) (s.setPut id (some ⟨key, entry, .first entry⟩))
  | diskPut {s : Traffic} {id : Nat} {key : CacheKey} {entry : CacheEntry} {r : Outcome Unit}
      {disk : OpenCache} :
      s.puts id = some ⟨key, entry, .disk⟩ →
      perform (DiskCache.put S key entry s.disk.cache) s.disk.files =
        ((r, disk.cache), disk.files) →
      TrafficStep S s (.diskPut id)
        ({ s with
            disk := disk
            diskPut :=
              if fits S s.disk.cache.maxSize entry = true then
                Function.update s.diskPut key.hashHex s.now
              else s.diskPut }.setPut id (some ⟨key, entry, .afterDisk r⟩))
  | memoryPut {s : Traffic} {id : Nat} {key : CacheKey} {entry : CacheEntry} :
      s.puts id = some ⟨key, entry, .memory⟩ →
      TrafficStep S s (.memoryPut id)
        ((s.remember key entry s.now).setPut id (some ⟨key, entry, .returned (.ok ())⟩))
  /-- The memory tier drops an entry of its own accord. -/
  | evict {s : Traffic} {key : CacheKey} :
      TrafficStep S s (.evict key) (s.forget key)
  /-- A get is dropped, wherever it waits. -/
  | cancel {s : Traffic} {id : Nat} :
      TrafficStep S s (.cancel id) (s.setGet id none)

/-! ## The property and the condition -/

/-- No get is about to remove or overwrite an entry that was put after it took its copy. -/
structure NoUndo (s : Traffic) : Prop where
  memory : ∀ id get taken, s.gets id = some get → get.phase.memoryTaken = some taken →
    (s.memory get.key).isSome = true → s.memoryPut get.key ≤ taken
  disk : ∀ id get taken, s.gets id = some get → get.phase.diskTaken = some taken →
    Stored s.disk.files get.key.hashHex → s.diskPut get.key.hashHex ≤ taken

/-- No entry gets into a tier while a get of its key, which took its copy before the entry was put,
has still to act on that tier. -/
def Undisturbed (S : Serde) (s : Traffic) : TrafficAction → Prop
  | .memoryPut id => ∀ key entry, s.puts id = some ⟨key, entry, .memory⟩ →
      ∀ id' get, s.gets id' = some get → get.key = key → get.phase.memoryTaken = none
  | .diskPut id => ∀ key entry, s.puts id = some ⟨key, entry, .disk⟩ →
      fits S s.disk.cache.maxSize entry = true →
      ∀ id' get, s.gets id' = some get → get.key.hash = key.hash → get.phase.diskTaken = none
  | .promote id => ∀ key entry put taken, s.gets id = some ⟨key, .promoting entry put taken⟩ →
      ∀ id' get taken', id' ≠ id → s.gets id' = some get → get.key = key →
        get.phase.memoryTaken = some taken' → put ≤ taken'
  | _ => True

/-! ## Times -/

/-- The disk is in order, and everything was put and taken before now. -/
structure Timed (s : Traffic) : Prop where
  balanced : Balanced s.disk.files s.disk.cache
  memoryPut : ∀ key, s.memoryPut key ≤ s.now
  diskPut : ∀ hashHex, s.diskPut hashHex ≤ s.now
  memoryTaken : ∀ id get taken, s.gets id = some get → get.phase.memoryTaken = some taken →
    taken < s.now
  diskTaken : ∀ id get taken, s.gets id = some get → get.phase.diskTaken = some taken →
    taken < s.now
  promoting : ∀ id key entry put taken,
    s.gets id = some ⟨key, .promoting entry put taken⟩ → put ≤ s.now

/-- A copy, if there is one, has been taken just now, and was put before. -/
structure GetPhase.Just (now : Nat) (phase : GetPhase) : Prop where
  memory : ∀ taken, phase.memoryTaken = some taken → taken = now
  disk : ∀ taken, phase.diskTaken = some taken → taken = now
  promoting : ∀ entry put taken, phase = .promoting entry put taken → put ≤ now

/-- Where no copy is held, none was taken too early. -/
theorem GetPhase.Just.of_untaken {phase : GetPhase} {now : Nat}
    (hmemory : phase.memoryTaken = none) (hdisk : phase.diskTaken = none) : phase.Just now where
  memory := by simp [hmemory]
  disk := by simp [hdisk]
  promoting := by
    rintro entry put taken rfl
    simp [GetPhase.memoryTaken] at hmemory

theorem just_afterMemoryGet (found : Option CacheEntry) (time now : Nat) :
    (afterMemoryGet found time now).Just now := by
  cases found with
  | none =>
      constructor <;> simp [afterMemoryGet, GetPhase.memoryTaken, GetPhase.diskTaken]
  | some entry =>
      cases hexpired : entry.isExpired time <;> constructor <;>
        simp [afterMemoryGet, hexpired, GetPhase.memoryTaken, GetPhase.diskTaken, eq_comm]

theorem just_afterDiskGet (r : Outcome (Option CacheEntry)) (time : Nat) {put now : Nat}
    (hput : put ≤ now) : (afterDiskGet r time put now).Just now := by
  rcases r with e | _ | entry
  · constructor <;> simp [afterDiskGet, GetPhase.memoryTaken, GetPhase.diskTaken]
  · constructor <;> simp [afterDiskGet, GetPhase.memoryTaken, GetPhase.diskTaken]
  · cases hexpired : entry.isExpired time <;> constructor <;>
      simp [afterDiskGet, hexpired, GetPhase.memoryTaken, GetPhase.diskTaken, eq_comm]
    omega

section States

variable {S : Serde} {s s' : Traffic} {a : TrafficAction}

theorem Traffic.gets_setGet {id id' : Nat} {get : Option PendingGet} {g : PendingGet}
    (h : (s.setGet id get).gets id' = some g) :
    (id' = id ∧ get = some g) ∨ (id' ≠ id ∧ s.gets id' = some g) := by
  by_cases hid : id' = id
  · subst hid
    exact .inl ⟨rfl, by simpa [Traffic.setGet] using h⟩
  · exact .inr ⟨hid, by simpa [Traffic.setGet, hid] using h⟩

namespace Timed

theorem init (memory : CacheKey → Option CacheEntry) {disk : OpenCache}
    (h : Balanced disk.files disk.cache) : Timed (Traffic.init memory disk) where
  balanced := h
  memoryPut := fun _ => Nat.le_refl _
  diskPut := fun _ => Nat.le_refl _
  memoryTaken := by simp [Traffic.init]
  diskTaken := by simp [Traffic.init]
  promoting := by simp [Traffic.init]

/-- Time goes on, and perhaps a get goes on. -/
theorem setGet (h : Timed s) (id : Nat) {get : Option PendingGet}
    (hget : ∀ g, get = some g → g.phase.Just s.now) : Timed (s.setGet id get) where
  balanced := h.balanced
  memoryPut := fun key => Nat.le_succ_of_le (h.memoryPut key)
  diskPut := fun hashHex => Nat.le_succ_of_le (h.diskPut hashHex)
  memoryTaken := by
    intro id' g taken hg htaken
    rcases Traffic.gets_setGet hg with ⟨-, hnew⟩ | ⟨-, hold⟩
    · exact Nat.lt_succ_of_le (Nat.le_of_eq ((hget g hnew).memory taken htaken))
    · exact Nat.lt_succ_of_lt (h.memoryTaken id' g taken hold htaken)
  diskTaken := by
    intro id' g taken hg htaken
    rcases Traffic.gets_setGet hg with ⟨-, hnew⟩ | ⟨-, hold⟩
    · exact Nat.lt_succ_of_le (Nat.le_of_eq ((hget g hnew).disk taken htaken))
    · exact Nat.lt_succ_of_lt (h.diskTaken id' g taken hold htaken)
  promoting := by
    intro id' key entry put taken hg
    rcases Traffic.gets_setGet hg with ⟨-, hnew⟩ | ⟨-, hold⟩
    · exact Nat.le_succ_of_le ((hget _ hnew).promoting entry put taken rfl)
    · exact Nat.le_succ_of_le (h.promoting id' key entry put taken hold)

theorem setPut (h : Timed s) (id : Nat) (put : Option PendingPut) : Timed (s.setPut id put) where
  balanced := h.balanced
  memoryPut := fun key => Nat.le_succ_of_le (h.memoryPut key)
  diskPut := fun hashHex => Nat.le_succ_of_le (h.diskPut hashHex)
  memoryTaken := fun id' g taken hg htaken =>
    Nat.lt_succ_of_lt (h.memoryTaken id' g taken hg htaken)
  diskTaken := fun id' g taken hg htaken =>
    Nat.lt_succ_of_lt (h.diskTaken id' g taken hg htaken)
  promoting := fun id' key entry put taken hg =>
    Nat.le_succ_of_le (h.promoting id' key entry put taken hg)

theorem forget (h : Timed s) (key : CacheKey) : Timed (s.forget key) :=
  { h with }

theorem remember (h : Timed s) (key : CacheKey) (entry : CacheEntry) {put : Nat}
    (hput : put ≤ s.now) : Timed (s.remember key entry put) :=
  { h with
    memoryPut := by
      intro key'
      by_cases hkey : key' = key
      · simpa [Traffic.remember, hkey] using hput
      · simpa [Traffic.remember, hkey] using h.memoryPut key' }

/-- The disk has changed, and some of its entries were put just now. -/
theorem setDisk (h : Timed s) {disk : OpenCache} {diskPut : Str → Nat}
    (hbalanced : Balanced disk.files disk.cache)
    (hput : ∀ hashHex, diskPut hashHex = s.diskPut hashHex ∨ diskPut hashHex = s.now) :
    Timed { s with disk := disk, diskPut := diskPut } :=
  { h with
    balanced := hbalanced
    diskPut := by
      intro hashHex
      rcases hput hashHex with hold | hnow
      · exact (Nat.le_of_eq hold).trans (h.diskPut hashHex)
      · exact Nat.le_of_eq hnow }

end Timed

/-- What a put leaves on the disk. -/
theorem stored_put (hS : S.NonEmpty) {files t : FileStore Path} {cache cache' : DiskCache}
    {key : CacheKey} {entry : CacheEntry} {r : Outcome Unit} (h : Balanced files cache)
    (hput : perform (DiskCache.put S key entry cache) files = ((r, cache'), t)) :
    Balanced t cache' ∧
      (∀ hashHex, Stored t hashHex → Stored files hashHex ∨
        (hashHex = key.hashHex ∧ fits S cache.maxSize entry = true)) ∧
      (fits S cache.maxSize entry = true → Stored t key.hashHex) := by
  rcases put_spec hS h key entry with ⟨r', cache₁, t₁, hexec, hbalanced, -, hsub, hmem⟩
  have heq : ((r', cache₁), t₁) = ((r, cache'), t) := hexec.symm.trans hput
  cases heq
  refine ⟨hbalanced, ?_, fun hfits => (hbalanced.tracked.stored _).1 (hmem hfits)⟩
  intro hashHex hstored
  have hin := hsub.subset ((hbalanced.tracked.stored hashHex).2 hstored)
  by_cases hfits : fits S cache.maxSize entry = true
  · rw [if_pos hfits] at hin
    rcases List.mem_append.1 hin with hold | hnew
    · exact .inl ((h.tracked.stored hashHex).1 (List.mem_filter.1 hold).1)
    · exact .inr ⟨List.mem_singleton.1 hnew, hfits⟩
  · rw [if_neg hfits] at hin
    exact .inl ((h.tracked.stored hashHex).1 hin)

/-- What a removal leaves on the disk. -/
theorem stored_remove {files t : FileStore Path} {cache cache' : DiskCache} {key : CacheKey}
    {r : Outcome Unit} (h : Balanced files cache)
    (hremove : perform (DiskCache.remove key cache) files = ((r, cache'), t)) :
    Balanced t cache' ∧ ∀ hashHex, Stored t hashHex → Stored files hashHex := by
  rcases remove_spec h key with ⟨cache₁, t₁, hexec, hbalanced, -, -⟩
  have heq : ((.ok (), cache₁), t₁) = ((r, cache'), t) := hexec.symm.trans hremove
  have ht : dropFiles key.filePath files = t :=
    congrArg Prod.snd ((perform_remove key cache files).symm.trans hremove)
  cases heq
  refine ⟨hbalanced, ?_⟩
  intro hashHex hstored
  rw [← ht] at hstored
  exact ((stored_dropFiles key hashHex).1 hstored).1

theorem Timed.step (h : Timed s) (hS : S.NonEmpty) (hstep : TrafficStep S s a s') : Timed s' := by
  cases hstep with
  | @get id key _ =>
      refine h.setGet id ?_
      rintro g ⟨rfl⟩
      exact .of_untaken rfl rfl
  | @memoryGet id time key _ =>
      refine h.setGet id ?_
      rintro g ⟨rfl⟩
      exact just_afterMemoryGet _ _ _
  | @memoryRemove id taken key entry _ =>
      refine (h.forget key).setGet id ?_
      rintro g ⟨rfl⟩
      exact .of_untaken rfl rfl
  | @diskGet id time key _ =>
      refine h.setGet id ?_
      rintro g ⟨rfl⟩
      exact just_afterDiskGet _ _ (h.diskPut _)
  | @promote id put taken key entry hget =>
      refine (h.remember key entry (h.promoting id key entry put taken hget)).setGet id ?_
      rintro g ⟨rfl⟩
      exact .of_untaken rfl rfl
  | @diskRemove id taken key entry r disk _ hremove =>
      have hdisk := h.setDisk (stored_remove h.balanced hremove).1 fun _ => Or.inl rfl
      refine hdisk.setGet id ?_
      rintro g ⟨rfl⟩
      exact .of_untaken rfl rfl
  | put _ =>
      exact h.setPut _ _
  | @diskPut id key entry r disk _ hput =>
      refine (h.setDisk (stored_put hS h.balanced hput).1 ?_).setPut id _
      intro hashHex
      by_cases hfits : fits S s.disk.cache.maxSize entry = true
      · by_cases hhash : hashHex = key.hashHex
        · simp [hfits, hhash]
        · simp [hfits, hhash]
      · simp [hfits]
  | @memoryPut id key entry _ =>
      exact (h.remember key entry (Nat.le_refl _)).setPut id _
  | @evict key =>
      exact h.forget key
  | cancel =>
      exact h.setGet _ (by simp)

/-! ## One step -/

namespace NoUndo

theorem init (memory : CacheKey → Option CacheEntry) (disk : OpenCache) :
    NoUndo (Traffic.init memory disk) where
  memory := by simp [Traffic.init]
  disk := by simp [Traffic.init]

/-- A get goes on, perhaps with a copy that it takes now. -/
theorem setGet (h : NoUndo s) (htimed : Timed s) (id : Nat) {get : Option PendingGet}
    (hget : ∀ g, get = some g → g.phase.Just s.now) : NoUndo (s.setGet id get) where
  memory := by
    intro id' g taken hg htaken hsome
    rcases Traffic.gets_setGet hg with ⟨-, hnew⟩ | ⟨-, hold⟩
    · exact ((hget g hnew).memory taken htaken) ▸ htimed.memoryPut g.key
    · exact h.memory id' g taken hold htaken hsome
  disk := by
    intro id' g taken hg htaken hstored
    rcases Traffic.gets_setGet hg with ⟨-, hnew⟩ | ⟨-, hold⟩
    · exact ((hget g hnew).disk taken htaken) ▸ htimed.diskPut g.key.hashHex
    · exact h.disk id' g taken hold htaken hstored

theorem setPut (h : NoUndo s) (id : Nat) (put : Option PendingPut) : NoUndo (s.setPut id put) where
  memory := h.memory
  disk := h.disk

theorem forget (h : NoUndo s) (key : CacheKey) : NoUndo (s.forget key) where
  memory := by
    intro id g taken hg htaken hsome
    by_cases hkey : g.key = key
    · simp [Traffic.forget, hkey] at hsome
    · refine h.memory id g taken hg htaken ?_
      simpa [Traffic.forget, hkey] using hsome
  disk := h.disk

/-- The disk has changed, and has no entry that it had not. -/
theorem setDisk (h : NoUndo s) {disk : OpenCache}
    (hdisk : ∀ hashHex, Stored disk.files hashHex → Stored s.disk.files hashHex) :
    NoUndo { s with disk := disk } where
  memory := h.memory
  disk := fun id g taken hg htaken hstored => h.disk id g taken hg htaken (hdisk _ hstored)

/-- An entry that was put in the step `put` gets into memory, and the get `id` is done. -/
theorem remember_iff (h : NoUndo s) {key : CacheKey} {entry : CacheEntry} {put : Nat}
    (hgets : ∀ id get, s'.gets id = some get → s.gets id = some get ∨
      get.phase.memoryTaken = none ∧ get.phase.diskTaken = none)
    (hmemory : s'.memory = Function.update s.memory key (some entry))
    (hmemoryPut : s'.memoryPut = Function.update s.memoryPut key put)
    (hdisk : s'.disk = s.disk) (hdiskPut : s'.diskPut = s.diskPut) :
    NoUndo s' ↔ ∀ id get taken, s'.gets id = some get → get.key = key →
      get.phase.memoryTaken = some taken → put ≤ taken := by
  constructor
  -- a get that holds an older copy of the key would undo this put
  · rintro h' id get taken hget rfl htaken
    have hle := h'.memory id get taken hget htaken (by simp [hmemory])
    simpa [hmemoryPut] using hle
  · intro hall
    constructor
    · intro id get taken hget htaken hsome
      -- only the key of the put is concerned
      by_cases hkey : get.key = key
      · simpa [hmemoryPut, hkey] using hall id get taken hget hkey htaken
      · rw [hmemory, Function.update_of_ne hkey] at hsome
        rw [hmemoryPut, Function.update_of_ne hkey]
        rcases hgets id get hget with hold | ⟨hnone, -⟩
        · exact h.memory id get taken hold htaken hsome
        · simp [hnone] at htaken
    · intro id get taken hget htaken hstored
      rw [hdiskPut]
      rcases hgets id get hget with hold | ⟨-, hnone⟩
      · exact h.disk id get taken hold htaken (hdisk ▸ hstored)
      · simp [hnone] at htaken

/-- An accepted put on the disk. -/
theorem stored_iff (h : NoUndo s) (htimed : Timed s) {key : CacheKey}
    (hgets : s'.gets = s.gets) (hmemory : s'.memory = s.memory)
    (hmemoryPut : s'.memoryPut = s.memoryPut)
    (hdiskPut : s'.diskPut = Function.update s.diskPut key.hashHex s.now)
    (hstored : Stored s'.disk.files key.hashHex)
    (hdisk : ∀ hashHex, Stored s'.disk.files hashHex →
      Stored s.disk.files hashHex ∨ hashHex = key.hashHex) :
    NoUndo s' ↔ ∀ id get, s.gets id = some get → get.key.hash = key.hash →
      get.phase.diskTaken = none := by
  constructor
  · intro h' id get hget hhash
    have hhex : get.key.hashHex = key.hashHex := by
      rw [CacheKey.hashHex, hhash, ← CacheKey.hashHex]
    cases htaken : get.phase.diskTaken with
    | none =>
        rfl
    | some taken =>
        -- the copy was taken before now, and the entry is put now
        have hle := h'.disk id get taken (hgets ▸ hget) htaken (hhex ▸ hstored)
        have hlt := htimed.diskTaken id get taken hget htaken
        rw [hdiskPut, hhex, Function.update_self] at hle
        omega
  · intro hall
    constructor
    · intro id get taken hget htaken hsome
      rw [hmemoryPut]
      rw [hmemory] at hsome
      exact h.memory id get taken (hgets ▸ hget) htaken hsome
    · intro id get taken hget htaken hstored'
      have hne : get.key.hashHex ≠ key.hashHex := by
        intro hhex
        have hnone := hall id get (hgets ▸ hget) (CacheKey.hash_of_hashHex hhex)
        simp [hnone] at htaken
      rw [hdiskPut, Function.update_of_ne hne]
      rcases hdisk _ hstored' with hold | hnew
      · exact h.disk id get taken (hgets ▸ hget) htaken hold
      · exact absurd hnew hne

theorem promote_iff (h : NoUndo s) {id put taken : Nat} {key : CacheKey} {entry : CacheEntry}
    (hget : s.gets id = some ⟨key, .promoting entry put taken⟩) :
    NoUndo ((s.remember key entry put).setGet id (some ⟨key, .returned (.ok (some entry))⟩)) ↔
      Undisturbed S s (.promote id) := by
  refine Iff.trans (h.remember_iff ?_ rfl rfl rfl rfl) ?_
  · intro id' get hget'
    rcases Traffic.gets_setGet hget' with ⟨-, ⟨rfl⟩⟩ | ⟨-, hold⟩
    · exact .inr ⟨rfl, rfl⟩
    · exact .inl hold
  · constructor
    · rintro hall key' entry' put' taken' hget' id' get taken'' hid hother hkey htaken
      have heq := hget.symm.trans hget'
      cases heq
      exact hall id' get taken'' (by simpa [Traffic.setGet, Traffic.remember, hid] using hother)
        hkey htaken
    · intro hall id' get taken' hget' hkey htaken
      rcases Traffic.gets_setGet hget' with ⟨-, ⟨rfl⟩⟩ | ⟨hid, hold⟩
      · cases htaken
      · exact hall key entry put taken hget id' get taken' hid hold hkey htaken

theorem memoryPut_iff (h : NoUndo s) (htimed : Timed s) {id : Nat} {key : CacheKey}
    {entry : CacheEntry} (hput : s.puts id = some ⟨key, entry, .memory⟩) :
    NoUndo ((s.remember key entry s.now).setPut id (some ⟨key, entry, .returned (.ok ())⟩)) ↔
      Undisturbed S s (.memoryPut id) := by
  refine Iff.trans (h.remember_iff (fun _ _ hget => .inl hget) rfl rfl rfl rfl) ?_
  constructor
  · intro hall key' entry' hput' id' get hget hkey
    have heq := hput.symm.trans hput'
    cases heq
    cases htaken : get.phase.memoryTaken with
    | none =>
        rfl
    | some taken =>
        -- the copy was taken before now, and the entry is put now
        have hle := hall id' get taken hget hkey htaken
        have hlt := htimed.memoryTaken id' get taken hget htaken
        omega
  · intro hall id' get taken hget hkey htaken
    have hnot := hall key entry hput id' get hget hkey
    simp [hnot] at htaken

theorem diskPut_iff (h : NoUndo s) (htimed : Timed s) (hS : S.NonEmpty) {id : Nat}
    {key : CacheKey} {entry : CacheEntry} {r : Outcome Unit} {disk : OpenCache}
    (hput : s.puts id = some ⟨key, entry, .disk⟩)
    (hexec : perform (DiskCache.put S key entry s.disk.cache) s.disk.files =
      ((r, disk.cache), disk.files)) :
    NoUndo ({ s with
        disk := disk
        diskPut :=
          if fits S s.disk.cache.maxSize entry = true then
            Function.update s.diskPut key.hashHex s.now
          else s.diskPut }.setPut id (some ⟨key, entry, .afterDisk r⟩)) ↔
      Undisturbed S s (.diskPut id) := by
  rcases stored_put hS htimed.balanced hexec with ⟨-, hback, hstored⟩
  by_cases hfits : fits S s.disk.cache.maxSize entry = true
  -- an entry that fits is stored now, and no other hash is stored that was not before
  · refine Iff.trans (h.stored_iff htimed rfl rfl rfl (if_pos hfits) (hstored hfits)
      fun hashHex hmem => (hback hashHex hmem).imp_right And.left) ?_
    constructor
    · rintro hall key' entry' hput' -
      have heq := hput.symm.trans hput'
      cases heq
      exact hall
    · exact fun hall => hall key entry hput hfits
  -- an entry that does not fit is not written, and disturbs nobody
  · refine iff_of_true ?_ ?_
    · simp only [if_neg hfits]
      refine (h.setDisk ?_).setPut _ _
      exact fun hashHex hmem => (hback hashHex hmem).resolve_right fun hor => hfits hor.2
    · intro key' entry' hput' hfits'
      have heq := hput.symm.trans hput'
      cases heq
      exact absurd hfits' hfits

/-- Undoing is about to happen after a step that is disturbed, and after no other. -/
theorem step_iff (h : NoUndo s) (htimed : Timed s) (hS : S.NonEmpty)
    (hstep : TrafficStep S s a s') : NoUndo s' ↔ Undisturbed S s a := by
  cases hstep with
  | @get id key _ =>
      refine iff_of_true (h.setGet htimed id ?_) trivial
      rintro g ⟨rfl⟩
      exact .of_untaken rfl rfl
  | @memoryGet id time key _ =>
      refine iff_of_true (h.setGet htimed id ?_) trivial
      rintro g ⟨rfl⟩
      exact just_afterMemoryGet _ _ _
  | @memoryRemove id taken key entry _ =>
      refine iff_of_true ((h.forget key).setGet (htimed.forget key) id ?_) trivial
      rintro g ⟨rfl⟩
      exact .of_untaken rfl rfl
  | @diskGet id time key _ =>
      refine iff_of_true (h.setGet htimed id ?_) trivial
      rintro g ⟨rfl⟩
      exact just_afterDiskGet _ _ (htimed.diskPut _)
  | promote hget =>
      exact h.promote_iff hget
  | @diskRemove id taken key entry r disk _ hremove =>
      rcases stored_remove htimed.balanced hremove with ⟨hbalanced, hback⟩
      refine iff_of_true ((h.setDisk hback).setGet
        (htimed.setDisk hbalanced fun _ => .inl rfl) id ?_) trivial
      rintro g ⟨rfl⟩
      exact .of_untaken rfl rfl
  | put _ =>
      exact iff_of_true (h.setPut _ _) trivial
  | diskPut hput hexec =>
      exact h.diskPut_iff htimed hS hput hexec
  | memoryPut hput =>
      exact h.memoryPut_iff htimed hput
  | @evict key =>
      exact iff_of_true (h.forget key) trivial
  | @cancel id =>
      exact iff_of_true (h.setGet htimed id (by simp)) trivial

end NoUndo

/-! ## Gets and puts that nothing comes between -/

/-- The get `id` has returned, and the tiers are as `cache` and `files` say. -/
structure Returned (s : Traffic) (id : Nat) (key : CacheKey) (r : Outcome (Option CacheEntry))
    (cache : TieredCache) (files : FileStore Path) : Prop where
  gets : s.gets id = some ⟨key, .returned r⟩
  memory : s.memory = cache.memory
  disk : s.disk = { files := files, cache := cache.disk }

/-- The steps from the disk lookup on are those of `getFromDisk`. -/
theorem run_getFromDisk_alone {id later : Nat} {key : CacheKey} {r : Outcome (Option CacheEntry)}
    {cache : TieredCache} {files : FileStore Path} (hget : s.gets id = some ⟨key, .missed⟩)
    (hexec : perform (TieredCache.getFromDisk S key later
      { memory := s.memory, disk := s.disk.cache }) s.disk.files = ((r, cache), files)) :
    ∃ as s', Run (TrafficStep S) s as s' ∧ Returned s' id key r cache files := by
  let s₁ := s.setGet id (some ⟨key, afterDiskGet (perform (DiskCache.get S key) s.disk.files).1
    later (s.diskPut key.hashHex) s.now⟩)
  have hstep : TrafficStep S s (.diskGet id later) s₁ := .diskGet hget
  have hkept := perform_get_store S key s.disk.files
  simp only [TieredCache.getFromDisk, perform, Prog.exec_bind] at hexec hkept
  rw [hkept] at hexec
  cases hfound : (perform (DiskCache.get S key) s.disk.files).1 with
  | error e =>
      have hexec' : ((Except.error e, { memory := s.memory, disk := s.disk.cache }), s.disk.files) =
          ((r, cache), files) := by
        simpa [hfound] using hexec
      cases hexec'
      exact ⟨_, s₁, .single hstep, by simp [s₁, Traffic.setGet, hfound, afterDiskGet], rfl, rfl⟩
  | ok found =>
      cases found with
      | none =>
          have hexec' : ((Except.ok none, { memory := s.memory, disk := s.disk.cache }),
              s.disk.files) = ((r, cache), files) := by
            simpa [hfound] using hexec
          cases hexec'
          exact ⟨_, s₁, .single hstep, by simp [s₁, Traffic.setGet, hfound, afterDiskGet], rfl, rfl⟩
      | some entry =>
          cases hexpired : entry.isExpired later with
          | true =>
              have hphase : s₁.gets id = some ⟨key, .expiredDisk entry s.now⟩ := by
                simp [s₁, Traffic.setGet, hfound, afterDiskGet, hexpired]
              let disk : OpenCache :=
                { files := dropFiles key.filePath s.disk.files
                  cache := afterRemove key (s.disk.files.size key.metaPath +
                    s.disk.files.size key.dataPath) s.disk.cache }
              have hremove : perform (DiskCache.remove key s.disk.cache) s.disk.files =
                  ((.ok (), disk.cache), disk.files) :=
                perform_remove key s.disk.cache s.disk.files
              have hexec' : ((Except.ok none, { memory := s.memory, disk := disk.cache }),
                  disk.files) = ((r, cache), files) := by
                simpa [hfound, hexpired, disk] using hexec
              cases hexec'
              exact ⟨_, _, (Run.single hstep).snoc (.diskRemove hphase hremove),
                by simp [Traffic.setGet], rfl, rfl⟩
          | false =>
              have hphase : s₁.gets id =
                  some ⟨key, .promoting entry (s.diskPut key.hashHex) s.now⟩ := by
                simp [s₁, Traffic.setGet, hfound, afterDiskGet, hexpired]
              have hexec' : ((Except.ok (some entry), TieredCache.remember
                  { memory := s.memory, disk := s.disk.cache } key entry), s.disk.files) =
                    ((r, cache), files) := by
                simpa [hfound, hexpired] using hexec
              cases hexec'
              exact ⟨_, _, (Run.single hstep).snoc (.promote hphase), by simp [Traffic.setGet], rfl,
                rfl⟩

/-- A get whose steps are taken one after another does what `TieredCache::get` does. -/
theorem run_get_alone {id now later : Nat} {key : CacheKey} {r : Outcome (Option CacheEntry)}
    {cache : TieredCache} {files : FileStore Path} (hget : s.gets id = none)
    (hexec : perform (TieredCache.get S key now later
      { memory := s.memory, disk := s.disk.cache }) s.disk.files = ((r, cache), files)) :
    ∃ as s', Run (TrafficStep S) s as s' ∧ Returned s' id key r cache files := by
  -- the get arrives, and asks the memory tier
  let s₁ := s.setGet id (some ⟨key, .arrived⟩)
  have harrived : TrafficStep S s (.get id key) s₁ := .get hget
  have hphase : s₁.gets id = some ⟨key, .arrived⟩ := by
    simp [s₁, Traffic.setGet]
  let s₂ := s₁.setGet id (some ⟨key, afterMemoryGet (s₁.memory key) now s₁.now⟩)
  have hasked : TrafficStep S s₁ (.memoryGet id now) s₂ := .memoryGet hphase
  have hboth := (Run.single harrived).snoc hasked
  have hmemory : s₁.memory = s.memory := rfl
  cases hfound : s.memory key with
  | none =>
      have hmissed : s₂.gets id = some ⟨key, .missed⟩ := by
        simp [s₂, Traffic.setGet, hmemory, hfound, afterMemoryGet]
      have hdisk : perform (TieredCache.getFromDisk S key later
          { memory := s.memory, disk := s.disk.cache }) s.disk.files = ((r, cache), files) := by
        simpa [TieredCache.get, hfound] using hexec
      rcases run_getFromDisk_alone hmissed hdisk with ⟨as, s', hrun, hreturned⟩
      exact ⟨_, s', hboth.append hrun, hreturned⟩
  | some entry =>
      cases hexpired : entry.isExpired now with
      | true =>
          have hphase' : s₂.gets id = some ⟨key, .expiredMemory entry s₁.now⟩ := by
            simp [s₂, Traffic.setGet, hmemory, hfound, afterMemoryGet, hexpired]
          -- an expired copy is removed from memory before the disk is asked
          let s₃ := (s₂.forget key).setGet id (some ⟨key, .missed⟩)
          have hremoved : TrafficStep S s₂ (.memoryRemove id) s₃ := .memoryRemove hphase'
          have hmissed : s₃.gets id = some ⟨key, .missed⟩ := by
            simp [s₃, Traffic.setGet]
          have hdisk : perform (TieredCache.getFromDisk S key later
              (TieredCache.forget { memory := s.memory, disk := s.disk.cache } key))
                s.disk.files = ((r, cache), files) := by
            simpa [TieredCache.get, hfound, hexpired] using hexec
          rcases run_getFromDisk_alone hmissed hdisk with ⟨as, s', hrun, hreturned⟩
          exact ⟨_, s', (hboth.snoc hremoved).append hrun, hreturned⟩
      | false =>
          have hexec' : ((Except.ok (some entry), { memory := s.memory, disk := s.disk.cache }),
              s.disk.files) = ((r, cache), files) := by
            simpa [TieredCache.get, hfound, hexpired] using hexec
          cases hexec'
          refine ⟨_, s₂, hboth, ?_, rfl, rfl⟩
          simp [s₂, Traffic.setGet, hmemory, hfound, afterMemoryGet, hexpired]

/-- A put whose steps are taken one after another does what `TieredCache::put` does. -/
theorem run_put_alone {id : Nat} {key : CacheKey} {entry : CacheEntry} {r : Outcome Unit}
    {cache : TieredCache} {files : FileStore Path} (hput : s.puts id = none)
    (hexec : perform (TieredCache.put S key entry { memory := s.memory, disk := s.disk.cache })
      s.disk.files = ((r, cache), files)) :
    ∃ as s', Run (TrafficStep S) s as s' ∧ s'.puts id = some ⟨key, entry, .returned r⟩ ∧
      s'.memory = cache.memory ∧ s'.disk = { files := files, cache := cache.disk } := by
  let s₁ := s.setPut id (some ⟨key, entry, .first entry⟩)
  have hput₁ : TrafficStep S s (.put id key entry) s₁ := .put hput
  -- a large entry goes to the disk first, and to memory when that succeeds
  by_cases hlarge : 1024 * 1024 < entry.size
  · have hphase : s₁.puts id = some ⟨key, entry, .disk⟩ := by
      simp [s₁, Traffic.setPut, PutPhase.first, hlarge]
    rcases hdisk : perform (DiskCache.put S key entry s.disk.cache) s.disk.files with
      ⟨⟨r', cache'⟩, files'⟩
    let disk : OpenCache := { files := files', cache := cache' }
    have hdisk' : Prog.exec FileOp.apply (DiskCache.put S key entry s.disk.cache) s.disk.files =
        ((r', disk.cache), disk.files) := hdisk
    have hstep : TrafficStep S s₁ (.diskPut id) _ := .diskPut hphase hdisk'
    have hboth := (Run.single hput₁).snoc hstep
    rw [TieredCache.put, if_pos hlarge, perform, Prog.exec_bind, hdisk'] at hexec
    cases r' with
    | error e =>
        cases hexec
        exact ⟨_, _, hboth, by simp [Traffic.setPut, PutPhase.afterDisk], rfl, rfl⟩
    | ok _ =>
        cases hexec
        refine ⟨_, _, hboth.snoc (@TrafficStep.memoryPut _ _ id key entry ?_),
          by simp [Traffic.setPut], rfl, rfl⟩
        simp [Traffic.setPut, PutPhase.afterDisk]
  · have hphase : s₁.puts id = some ⟨key, entry, .memory⟩ := by
      simp [s₁, Traffic.setPut, PutPhase.first, hlarge]
    rw [TieredCache.put, if_neg hlarge] at hexec
    cases hexec
    exact ⟨_, _, (Run.single hput₁).snoc (.memoryPut hphase), by simp [Traffic.setPut], rfl, rfl⟩

/-! ## All runs -/

/-- The runs in which no get ever undoes a newer put are the undisturbed ones. -/
theorem undisturbed_iff_noUndo (hS : S.NonEmpty) (memory : CacheKey → Option CacheEntry)
    {disk : OpenCache} (hdisk : Balanced disk.files disk.cache) (as : List TrafficAction)
    (s : Traffic) :
    Run (Guarded (TrafficStep S) (Undisturbed S)) (Traffic.init memory disk) as s ↔
      Run (Into (TrafficStep S) NoUndo) (Traffic.init memory disk) as s :=
  Run.guarded_iff_into (fun _ _ _ h hstep => h.step hS hstep)
    (fun _ _ _ htimed h hstep => h.step_iff htimed hS hstep) (.init memory hdisk)
    (.init memory disk)

end States

/-! ## Two runs -/

/-- An entry is put and expires, and a get removes it before the next one is put. -/
def expiredActions : List TrafficAction :=
  [.put 0 exampleKey shortEntry, .memoryPut 0, .get 0 exampleKey, .memoryGet 0 (100 * 10 ^ 9),
    .memoryRemove 0, .put 1 exampleKey longEntry, .memoryPut 1]

theorem run_expired :
    ∃ s, Run (Guarded (TrafficStep exampleSerde) (Undisturbed exampleSerde))
        (Traffic.init (fun _ => none) (OpenCache.fresh 1024 0)) expiredActions s ∧
      s.gets 0 = some ⟨exampleKey, .missed⟩ ∧ s.memory exampleKey = some longEntry := by
  refine ⟨_, .cons ⟨.put rfl, trivial⟩ <| .cons ⟨.memoryPut rfl, ?_⟩ <|
    .cons ⟨.get rfl, trivial⟩ <| .cons ⟨.memoryGet rfl, trivial⟩ <|
    .cons ⟨.memoryRemove rfl, trivial⟩ <| .cons ⟨.put rfl, trivial⟩ <|
    .cons ⟨.memoryPut rfl, ?_⟩ <| .nil _, rfl, rfl⟩
  · intro key entry _ id get hget
    cases hget
  -- the get has removed its copy, and holds none any more
  · intro key entry _ id get hget _
    rcases Traffic.gets_setGet hget with ⟨-, hmissed⟩ | ⟨hother, hget⟩
    · rw [← Option.some.inj hmissed]
      rfl
    · rcases Traffic.gets_setGet hget with ⟨hsame, -⟩ | ⟨-, hget⟩
      · exact absurd hsame hother
      · rcases Traffic.gets_setGet hget with ⟨hsame, -⟩ | ⟨-, hget⟩
        · exact absurd hsame hother
        · cases hget

/-- The new entry stays. -/
theorem undisturbed_iff_noUndo_expired :
    ∃ s, Run (Into (TrafficStep exampleSerde) NoUndo)
        (Traffic.init (fun _ => none) (OpenCache.fresh 1024 0)) expiredActions s ∧
      s.gets 0 = some ⟨exampleKey, .missed⟩ ∧ s.memory exampleKey = some longEntry := by
  rcases run_expired with ⟨s, hrun, hget, hmemory⟩
  exact ⟨s, (undisturbed_iff_noUndo exampleSerde_nonEmpty _
    (Represents.fresh exampleSerde 1024 0).balanced _ _).1 hrun, hget, hmemory⟩

/-- Not so in all runs: the entry in memory has expired when a get looks at it, a new one is
put, and the get is about to remove that one. -/
theorem not_noUndo_expired :
    ¬ ∀ (S : Serde) (memory : CacheKey → Option CacheEntry) (disk : OpenCache)
      (as : List TrafficAction) (s : Traffic), S.NonEmpty → Balanced disk.files disk.cache →
      Run (TrafficStep S) (Traffic.init memory disk) as s → NoUndo s := by
  intro h
  have hrun : Run (TrafficStep exampleSerde)
      (Traffic.init (fun _ => none) (OpenCache.fresh 1024 0))
      [.put 0 exampleKey shortEntry, .memoryPut 0, .get 0 exampleKey,
        .memoryGet 0 (100 * 10 ^ 9), .put 1 exampleKey longEntry, .memoryPut 1] _ :=
    .cons (.put rfl) <| .cons (.memoryPut rfl) <| .cons (.get rfl) <| .cons (.memoryGet rfl) <|
    .cons (.put rfl) <| .cons (.memoryPut rfl) <| .nil _
  have hno := h _ _ _ _ _ exampleSerde_nonEmpty (Represents.fresh exampleSerde 1024 0).balanced hrun
  have hle := hno.memory 0 ⟨exampleKey, .expiredMemory shortEntry 3⟩ 3 rfl rfl (by decide)
  exact absurd hle (by decide)

end Cache
end Squiddish
