import Squiddish.Lib.Runs
import Squiddish.Cache.Tiered
import Squiddish.Cache.Example

/-!
# Generations — which put of a key a later get may answer with

Runs of `TieredCache::put` and `get`, one after another, with a memory tier that may drop any
entry at any moment.  A put that leaves the disk as it is, because its entry is small or larger
than the whole disk cache, makes the disk hold an older generation of the key when there was one.
-/

namespace Squiddish
namespace Cache

open Lib

/-! ## Runs -/

/-- Both tiers, and the entry of the last put of each key that succeeded. -/
structure Tiers where
  files : FileStore Path
  cache : TieredCache
  latest : CacheKey → Option CacheEntry

inductive TieredOp
  | put (key : CacheKey) (entry : CacheEntry)
  | get (key : CacheKey) (now later : Nat)
  | drop (key : CacheKey)
  deriving DecidableEq, Repr

def TieredOp.key : TieredOp → CacheKey
  | .put key _ => key
  | .get key _ _ => key
  | .drop key => key

/-- A put counts when it returned without an error. -/
def recordPut (latest : CacheKey → Option CacheEntry) (key : CacheKey) (entry : CacheEntry) :
    Outcome Unit → CacheKey → Option CacheEntry
  | .ok _ => Function.update latest key (some entry)
  | .error _ => latest

inductive TieredStep (S : Serde) : Tiers → TieredOp → Tiers → Prop
  | put {s : Tiers} {key : CacheKey} {entry : CacheEntry} {time : Nat} {r : Outcome Unit}
      {cache : TieredCache} {files : FileStore Path} :
      perform (s.cache.put S key entry) (s.files.setClock time) = ((r, cache), files) →
      TieredStep S s (.put key entry)
        { files := files, cache := cache, latest := recordPut s.latest key entry r }
  | get {s : Tiers} {key : CacheKey} {now later time : Nat} {r : Outcome (Option CacheEntry)}
      {cache : TieredCache} {files : FileStore Path} :
      perform (s.cache.get S key now later) (s.files.setClock time) = ((r, cache), files) →
      TieredStep S s (.get key now later) { files := files, cache := cache, latest := s.latest }
  | drop {s : Tiers} {key : CacheKey} :
      TieredStep S s (.drop key) { s with cache := s.cache.forget key }

/-- `TieredCache::new` on an empty directory. -/
def Tiers.init (maxSize now : Nat) : Tiers where
  files := FileStore.empty now
  cache := .ofDisk { maxSize := maxSize, currentSize := 0, evictionOrder := [] }
  latest := fun _ => none

/-- Whenever `get` is called, it answers with nothing or with the entry of the last put. -/
def Fresh (S : Serde) (key : CacheKey) (s : Tiers) : Prop :=
  ∀ now later, ∃ found : Option CacheEntry,
    (perform (s.cache.get S key now later) s.files).1.1 = .ok found ∧
      ∀ entry, found = some entry → s.latest key = some entry

/-- Whether a put of the entry succeeds and leaves the disk as it is. -/
def bypassesDisk (S : Serde) (maxSize : Nat) (entry : CacheEntry) : Bool :=
  if 1024 * 1024 < entry.size then
    match S.toVec entry.metadata with
    | .ok metaJson => decide (maxSize < metaJson.length + entry.data.length)
    | .error _ => false
  else
    true

/-- No put of the key leaves the disk as it is while the disk holds an entry of the key. -/
def NoBypass (S : Serde) (key : CacheKey) (s : Tiers) : TieredOp → Prop
  | .put key' entry =>
      key' = key → bypassesDisk S s.cache.disk.maxSize entry = true →
        pair s.files key = (none, none)
  | .get _ _ _ => True
  | .drop _ => True

/-! ## Both tiers hold the last put or nothing -/

/-- What the disk holds of the key is a complete entry that was put last. -/
def DiskCurrent (S : Serde) (files : FileStore Path) (key : CacheKey)
    (latest : Option CacheEntry) : Prop :=
  pair files key = (none, none) ∨
    ∃ entry metaJson, latest = some entry ∧ S.toVec entry.metadata = .ok metaJson ∧
      pair files key = (some metaJson, some entry.data)

structure Current (S : Serde) (key : CacheKey) (files : FileStore Path) (cache : TieredCache)
    (latest : Option CacheEntry) : Prop where
  memory : ∀ entry, cache.memory key = some entry → latest = some entry
  disk : DiskCurrent S files key latest

section Get

variable {S : Serde} {key : CacheKey} {files : FileStore Path} {latest : Option CacheEntry}

theorem DiskCurrent.of_pair_eq {files' : FileStore Path} (h : DiskCurrent S files key latest)
    (heq : pair files' key = (none, none) ∨ pair files' key = pair files key) :
    DiskCurrent S files' key latest := by
  rcases heq with heq | heq
  · exact .inl heq
  · rw [DiskCurrent, heq]
    exact h

/-- A read of the disk finds nothing or the last put. -/
theorem DiskCurrent.get (hS : S.RoundTrip) (h : DiskCurrent S files key latest) :
    ∃ found : Option CacheEntry,
      perform (DiskCache.get S key) files = (.ok found, files) ∧
        ∀ entry, found = some entry → latest = some entry := by
  have hstore := perform_get_store S key files
  rcases h with hnone | ⟨entry, metaJson, hlatest, hjson, hpair⟩
  · have hget := get_of_meta_absent S (congrArg Prod.fst hnone)
    exact ⟨none, Prod.ext hget hstore, by simp⟩
  · have hget := get_of_pair hS hjson hpair
    refine ⟨some entry, Prod.ext hget hstore, ?_⟩
    intro entry' heq
    cases heq
    exact hlatest

variable {cache : TieredCache}

theorem getFromDisk_spec (hS : S.RoundTrip) (h : Current S key files cache latest)
    (later : Nat) :
    ∃ found cache' files',
      perform (TieredCache.getFromDisk S key later cache) files = ((.ok found, cache'), files') ∧
        (∀ entry, found = some entry → latest = some entry) ∧
        Current S key files' cache' latest := by
  rcases h.disk.get hS with ⟨found, hget, hfound⟩
  cases found with
  | none =>
      refine ⟨none, cache, files, ?_, by simp, h⟩
      simp [TieredCache.getFromDisk, hget]
  | some entry =>
      by_cases hexp : entry.isExpired later = true
      -- the entry has expired: its files are removed, and the disk holds nothing of the key
      · let removedSize := files.size key.metaPath + files.size key.dataPath
        refine ⟨none, { cache with disk := afterRemove key removedSize cache.disk },
          dropFiles key.filePath files, ?_, by simp,
          ⟨h.memory, .inl (pair_dropFiles_self key files)⟩⟩
        simp [TieredCache.getFromDisk, hget, hexp, removedSize]
      · refine ⟨some entry, cache.remember key entry, files, ?_, hfound, ⟨?_, h.disk⟩⟩
        · simp [TieredCache.getFromDisk, hget, hexp]
        · intro entry' heq
          have hentry : entry = entry' := by
            simpa using heq
          exact hentry ▸ hfound entry rfl

theorem get_spec (hS : S.RoundTrip) (h : Current S key files cache latest) (now later : Nat) :
    ∃ found cache' files',
      perform (cache.get S key now later) files = ((.ok found, cache'), files') ∧
        (∀ entry, found = some entry → latest = some entry) ∧
        Current S key files' cache' latest := by
  cases hmem : cache.memory key with
  | none =>
      rcases getFromDisk_spec hS h later with ⟨found, cache', files', hexec, hfound, hcur⟩
      exact ⟨found, cache', files', by simpa [TieredCache.get, hmem] using hexec, hfound, hcur⟩
  | some entry =>
      by_cases hexp : entry.isExpired now = true
      -- dropping the entry from memory leaves the disk, which may hold the last put as well
      · have hforget : Current S key files (cache.forget key) latest :=
          ⟨by simp, h.disk⟩
        rcases getFromDisk_spec hS hforget later with ⟨found, cache', files', hexec, hfound, hcur⟩
        exact ⟨found, cache', files', by simpa [TieredCache.get, hmem, hexp] using hexec, hfound,
          hcur⟩
      · refine ⟨some entry, cache, files, ?_, ?_, h⟩
        · simp [TieredCache.get, hmem, hexp]
        · intro entry' heq
          cases heq
          exact h.memory entry hmem

end Get

section Put

/-- How a put ends: with an error, in memory only, or in both tiers. -/
inductive PutEnds (S : Serde) (key : CacheKey) (entry : CacheEntry) (files : FileStore Path)
    (cache : TieredCache) : Outcome Unit → TieredCache → FileStore Path → Prop
  | failed {e : Failure} {disk : DiskCache} {files' : FileStore Path} :
      (∀ key', pair files' key' = (none, none) ∨ pair files' key' = pair files key') →
      PutEnds S key entry files cache (.error e) { cache with disk := disk } files'
  | remembered :
      bypassesDisk S cache.disk.maxSize entry = true →
      PutEnds S key entry files cache (.ok ()) (cache.remember key entry) files
  | written {disk : DiskCache} {metaJson : Bytes} {u : FileStore Path} :
      S.toVec entry.metadata = .ok metaJson →
      (∀ key', pair u key' = (none, none) ∨ pair u key' = pair files key') →
      PutEnds S key entry files cache (.ok ()) ({ cache with disk := disk }.remember key entry)
        (saveEntry key metaJson entry.data (dropFiles key.filePath u))

theorem perform_put_ends (S : Serde) (key : CacheKey) (entry : CacheEntry)
    (files : FileStore Path) (cache : TieredCache) :
    ∃ r cache' files', perform (cache.put S key entry) files = ((r, cache'), files') ∧
      PutEnds S key entry files cache r cache' files' := by
  by_cases hsize : 1024 * 1024 < entry.size
  · cases hjson : S.toVec entry.metadata with
    | error text =>
        rcases perform_put_of_error hjson key cache.disk files with ⟨e, hput⟩
        refine ⟨.error e, { cache with disk := cache.disk }, files, ?_, .failed fun _ => .inr rfl⟩
        simp [TieredCache.put, hsize, hput]
    | ok metaJson =>
        by_cases hlarge : cache.disk.maxSize < metaJson.length + entry.data.length
        · have hput := perform_put_of_large hjson hlarge key files
          refine ⟨.ok (), cache.remember key entry, files, ?_, .remembered ?_⟩
          · simp [TieredCache.put, hsize, hput]
          · simp [bypassesDisk, hsize, hjson, hlarge]
        · rcases perform_put_of_fits hjson (Nat.le_of_not_lt hlarge) key files with
            ⟨r, disk, t, u, hput, _, hpair, ⟨e, rfl, rfl⟩ | ⟨rfl, rfl⟩⟩
          -- making room failed: some entries are gone, and the new one is not written
          · refine ⟨.error e, { cache with disk := disk }, t, ?_, .failed hpair⟩
            simp [TieredCache.put, hsize, hput]
          · refine ⟨.ok (), { cache with disk := disk }.remember key entry,
              saveEntry key metaJson entry.data (dropFiles key.filePath u), ?_,
              .written hjson hpair⟩
            simp [TieredCache.put, hsize, hput]
  · refine ⟨.ok (), cache.remember key entry, files, ?_, .remembered ?_⟩
    · simp [TieredCache.put, hsize]
    · simp [bypassesDisk, hsize]

variable {S : Serde} {key : CacheKey} {files : FileStore Path} {cache : TieredCache}
  (latest : CacheKey → Option CacheEntry) {entry : CacheEntry}

/-- A put of the key itself.  The entry that was on the disk is replaced, or it was not there. -/
theorem put_current (h : Current S key files cache (latest key))
    (hbypass : bypassesDisk S cache.disk.maxSize entry = true → pair files key = (none, none)) :
    ∃ r cache' files',
      perform (cache.put S key entry) files = ((r, cache'), files') ∧
        Current S key files' cache' (recordPut latest key entry r key) := by
  rcases perform_put_ends S key entry files cache with ⟨r, cache', files', hexec, hends⟩
  refine ⟨r, cache', files', hexec, ?_⟩
  cases hends with
  | failed hpair =>
      exact ⟨h.memory, h.disk.of_pair_eq (hpair key)⟩
  | remembered hbypassed =>
      -- only memory holds the new entry, and the disk held nothing of the key
      exact ⟨by simp [recordPut], .inl (hbypass hbypassed)⟩
  | @written disk metaJson u hjson hpair =>
      refine ⟨?_, .inr ⟨entry, metaJson, ?_, hjson, pair_saveEntry_self _ _ _ _⟩⟩
      · simp [recordPut]
      · simp [recordPut]

end Put

/-! ## Operations on other keys -/

section Frame

variable {key other : CacheKey} {files : FileStore Path} {cache : TieredCache}

/-- Another key's operation leaves the memory of this key alone and at most evicts its files. -/
structure Untouched (key : CacheKey) (files : FileStore Path) (cache : TieredCache)
    (files' : FileStore Path) (cache' : TieredCache) : Prop where
  memory : cache'.memory key = cache.memory key
  disk : pair files' key = (none, none) ∨ pair files' key = pair files key

theorem Current.of_untouched {S : Serde} {latest : Option CacheEntry} {files' : FileStore Path}
    {cache' : TieredCache} (h : Current S key files cache latest)
    (hsame : Untouched key files cache files' cache') : Current S key files' cache' latest where
  memory := by
    rw [hsame.memory]
    exact h.memory
  disk := h.disk.of_pair_eq hsame.disk

variable (files cache) (S : Serde)

theorem put_untouched (hne : key ≠ other) (hhash : key.hashHex ≠ other.hashHex)
    (entry : CacheEntry) :
    ∃ r cache' files', perform (cache.put S other entry) files = ((r, cache'), files') ∧
      Untouched key files cache files' cache' := by
  rcases perform_put_ends S other entry files cache with ⟨r, cache', files', hexec, hends⟩
  refine ⟨r, cache', files', hexec, ?_⟩
  cases hends with
  | failed hpair =>
      exact ⟨rfl, hpair key⟩
  | remembered _ =>
      exact ⟨TieredCache.memory_remember_of_ne hne, .inr rfl⟩
  | @written disk metaJson u _ hpair =>
      refine ⟨TieredCache.memory_remember_of_ne hne, ?_⟩
      -- the files written are those of another hash; making room may have evicted this one
      rw [pair_saveEntry_of_ne hhash, pair_dropFiles_of_ne hhash]
      exact hpair key

theorem getFromDisk_untouched (hne : key ≠ other) (later : Nat) :
    ∃ r cache' files',
      perform (TieredCache.getFromDisk S other later cache) files = ((r, cache'), files') ∧
        Untouched key files cache files' cache' := by
  have hstore := perform_get_store S other files
  rcases hget : perform (DiskCache.get S other) files with ⟨r, files'⟩
  have hfiles : files' = files := by
    simpa [hget] using hstore
  subst hfiles
  rcases r with e | found
  · refine ⟨.error e, cache, files', ?_, ⟨rfl, .inr rfl⟩⟩
    simp [TieredCache.getFromDisk, hget]
  · cases found with
    | none =>
        refine ⟨.ok none, cache, files', ?_, ⟨rfl, .inr rfl⟩⟩
        simp [TieredCache.getFromDisk, hget]
    | some entry =>
        by_cases hexp : entry.isExpired later = true
        · let removedSize := files'.size other.metaPath + files'.size other.dataPath
          refine ⟨.ok none, { cache with disk := afterRemove other removedSize cache.disk },
            dropFiles other.filePath files', ?_, ⟨rfl, pair_dropFiles _ _ _⟩⟩
          simp [TieredCache.getFromDisk, hget, hexp, removedSize]
        · refine ⟨.ok (some entry), cache.remember other entry, files', ?_,
            ⟨TieredCache.memory_remember_of_ne hne, .inr rfl⟩⟩
          simp [TieredCache.getFromDisk, hget, hexp]

theorem get_untouched (hne : key ≠ other) (now later : Nat) :
    ∃ r cache' files', perform (cache.get S other now later) files = ((r, cache'), files') ∧
      Untouched key files cache files' cache' := by
  cases hmem : cache.memory other with
  | none =>
      rcases getFromDisk_untouched files cache S hne later with
        ⟨r, cache', files', hexec, hsame⟩
      exact ⟨r, cache', files', by simpa [TieredCache.get, hmem] using hexec, hsame⟩
  | some entry =>
      by_cases hexp : entry.isExpired now = true
      · rcases getFromDisk_untouched files (cache.forget other) S hne later with
          ⟨r, cache', files', hexec, hsame⟩
        refine ⟨r, cache', files', by simpa [TieredCache.get, hmem, hexp] using hexec,
          ⟨?_, hsame.disk⟩⟩
        rw [hsame.memory, TieredCache.memory_forget_of_ne hne]
      · refine ⟨.ok (some entry), cache, files, ?_, ⟨rfl, .inr rfl⟩⟩
        simp [TieredCache.get, hmem, hexp]

end Frame

/-! ## Every run -/

def Tiers.Current (S : Serde) (key : CacheKey) (s : Tiers) : Prop :=
  Cache.Current S key s.files s.cache (s.latest key)

theorem Current.setClock {S : Serde} {key : CacheKey} {files : FileStore Path}
    {cache : TieredCache} {latest : Option CacheEntry} (h : Current S key files cache latest)
    (time : Nat) : Current S key (files.setClock time) cache latest where
  memory := h.memory
  disk := h.disk

theorem recordPut_of_ne (latest : CacheKey → Option CacheEntry) {key other : CacheKey}
    (hne : key ≠ other) (entry : CacheEntry) (r : Outcome Unit) :
    recordPut latest other entry r key = latest key := by
  cases r with
  | error e =>
      rfl
  | ok _ =>
      simp [recordPut, hne]

/-- One step keeps both tiers current when it is not a put that leaves an old entry on disk. -/
theorem TieredStep.current {S : Serde} (hS : S.RoundTrip) {key : CacheKey} {s t : Tiers}
    {op : TieredOp} (hstep : TieredStep S s op t) (hop : NoBypass S key s op)
    (hkey : op.key.hash = key.hash → op.key = key) (h : s.Current S key) : t.Current S key := by
  -- keys of the run with one hash are the same key, so another key has other files
  have hother : op.key ≠ key → key ≠ op.key ∧ key.hashHex ≠ op.key.hashHex := by
    intro hne
    refine ⟨hne.symm, ?_⟩
    intro hhex
    exact hne (hkey (CacheKey.hash_of_hashHex hhex).symm)
  cases hstep with
  | @put other entry time r cache files hexec =>
      have hclock := Current.setClock h time
      by_cases hsame : other = key
      · subst hsame
        rcases put_current s.latest hclock (hop rfl) with
          ⟨r', cache', files', hexec', hcur⟩
        have heq := hexec.symm.trans hexec'
        cases heq
        exact hcur
      · rcases hother hsame with ⟨hne, hhash⟩
        rcases put_untouched (s.files.setClock time) s.cache S hne hhash entry with
          ⟨r', cache', files', hexec', huntouched⟩
        have heq := hexec.symm.trans hexec'
        cases heq
        have hne' : key ≠ other := hne
        have hlatest := recordPut_of_ne s.latest hne' entry r
        show Cache.Current S key files cache (recordPut s.latest other entry r key)
        rw [hlatest]
        exact hclock.of_untouched huntouched
  | @get other now later time r cache files hexec =>
      have hclock := Current.setClock h time
      by_cases hsame : other = key
      · subst hsame
        rcases get_spec hS hclock now later with ⟨found, cache', files', hexec', _, hcur⟩
        have heq := hexec.symm.trans hexec'
        cases heq
        exact hcur
      · rcases get_untouched (s.files.setClock time) s.cache S (hother hsame).1 now later with
          ⟨r', cache', files', hexec', huntouched⟩
        have heq := hexec.symm.trans hexec'
        cases heq
        exact hclock.of_untouched huntouched
  | @drop other =>
      refine ⟨?_, h.disk⟩
      intro entry hmem
      by_cases hsame : other = key
      · subst hsame
        simp at hmem
      · rw [TieredCache.memory_forget_of_ne (Ne.symm hsame)] at hmem
        exact h.memory entry hmem

theorem Tiers.Current.fresh {S : Serde} (hS : S.RoundTrip) {key : CacheKey} {s : Tiers}
    (h : s.Current S key) : Fresh S key s := by
  intro now later
  rcases get_spec hS h now later with ⟨found, cache', files', hexec, hfound, _⟩
  exact ⟨found, by rw [hexec], hfound⟩

/-- In every run in which no put leaves an older entry of the key on the disk, a get of the key
answers with nothing or with the last put. -/
theorem fresh_of_noBypass {S : Serde} (hS : S.RoundTrip) {maxSize now : Nat} {key : CacheKey}
    {ops : List TieredOp} {t : Tiers}
    (hdistinct : ∀ op ∈ ops, op.key.hash = key.hash → op.key = key)
    (hrun : Run (Guarded (TieredStep S) (NoBypass S key)) (.init maxSize now) ops t) :
    Fresh S key t := by
  have hcurrent : t.Current S key := by
    refine hrun.invariant_of_mem (I := Tiers.Current S key) ?_ ?_
    · intro s op u hmem hs hstep
      exact hstep.1.current hS hstep.2 (hdistinct op hmem) hs
    · exact ⟨by simp [Tiers.init, TieredCache.ofDisk], .inl rfl⟩
  exact hcurrent.fresh hS

/-! ## A put that leaves an older entry on the disk -/

theorem perform_put_of_bypass {S : Serde} {entry : CacheEntry} {cache : TieredCache}
    (h : bypassesDisk S cache.disk.maxSize entry = true) (key : CacheKey)
    (files : FileStore Path) :
    perform (cache.put S key entry) files = ((.ok (), cache.remember key entry), files) := by
  by_cases hsize : 1024 * 1024 < entry.size
  · cases hjson : S.toVec entry.metadata with
    | error text =>
        simp [bypassesDisk, hsize, hjson] at h
    | ok metaJson =>
        have hlarge : cache.disk.maxSize < metaJson.length + entry.data.length := by
          simpa [bypassesDisk, hsize, hjson] using h
        have hput := perform_put_of_large hjson hlarge key files
        simp [TieredCache.put, hsize, hput]
  · simp [TieredCache.put, hsize]

theorem perform_put_large_of_room {S : Serde} {entry : CacheEntry} {cache : TieredCache}
    {metaJson : Bytes} (hsize : 1024 * 1024 < entry.size)
    (hjson : S.toVec entry.metadata = .ok metaJson)
    (hroom : cache.disk.currentSize + (metaJson.length + entry.data.length) ≤ cache.disk.maxSize)
    (key : CacheKey) (files : FileStore Path) :
    let disk := afterReplace key (files.size key.metaPath + files.size key.dataPath)
      (metaJson.length + entry.data.length) cache.disk
    perform (cache.put S key entry) files =
      ((.ok (), { cache with disk := disk }.remember key entry),
        saveEntry key metaJson entry.data (dropFiles key.filePath files)) := by
  have hdisk := perform_put_of_room hjson hroom key files
  simp [TieredCache.put, hsize, hdisk]

theorem isExpired_timestamp (entry : CacheEntry) : entry.isExpired entry.timestamp = false := by
  simp [CacheEntry.isExpired, elapsedSecs]

/-- Such a put, and a memory tier that drops its entry, bring the older entry back. -/
theorem stale_of_bypass {S : Serde} (hS : S.RoundTrip) {s : Tiers} {key : CacheKey}
    {old entry : CacheEntry} {metaJson : Bytes} (hjson : S.toVec old.metadata = .ok metaJson)
    (hpair : pair s.files key = (some metaJson, some old.data))
    (hbypass : bypassesDisk S s.cache.disk.maxSize entry = true) (hne : entry ≠ old) :
    ∃ t, Run (TieredStep S) s [.put key entry, .drop key] t ∧ ¬ Fresh S key t := by
  have hput := perform_put_of_bypass hbypass key (s.files.setClock 0)
  refine ⟨_, .cons (.put hput) (.cons .drop (.nil _)), ?_⟩
  intro hfresh
  have hget : perform (DiskCache.get S key) (s.files.setClock 0) =
      (.ok (some old), s.files.setClock 0) :=
    Prod.ext (get_of_pair hS hjson hpair) (perform_get_store S key _)
  rcases hfresh 0 old.timestamp with ⟨found, hfound, hlatest⟩
  -- memory has dropped the new entry, and the disk still has the old one
  have hold : found = some old := by
    have hres : (.ok (some old) : Outcome (Option CacheEntry)) = .ok found := by
      simpa [TieredCache.get, TieredCache.getFromDisk, hget, isExpired_timestamp] using hfound
    exact (Except.ok.inj hres).symm
  have heq : entry = old := by
    simpa [recordPut] using hlatest old hold
  exact hne heq

theorem currentSize_afterReplace_le (key : CacheKey) (oldSize newSize : Nat) (cache : DiskCache) :
    (afterReplace key oldSize newSize cache).currentSize ≤ cache.currentSize + newSize := by
  by_cases hold : 0 < oldSize
  · simp [afterReplace, hold, DiskCache.retainOther]
  · simp [afterReplace, hold]

/-- A put of a large entry, when there is room, writes it to the disk. -/
theorem put_large {S : Serde} {s : Tiers} {large : CacheEntry} {metaJson : Bytes}
    (key : CacheKey) (hlarge : 1024 * 1024 < large.size)
    (hjson : S.toVec large.metadata = .ok metaJson)
    (hroom : s.cache.disk.currentSize + (metaJson.length + large.data.length) ≤
      s.cache.disk.maxSize) :
    ∃ t, TieredStep S s (.put key large) t ∧
      pair t.files key = (some metaJson, some large.data) ∧ t.latest key = some large ∧
      t.cache.disk.maxSize = s.cache.disk.maxSize ∧
      t.cache.disk.currentSize ≤
        s.cache.disk.currentSize + (metaJson.length + large.data.length) := by
  have hput := perform_put_large_of_room hlarge hjson hroom key (s.files.setClock 0)
  exact ⟨_, .put hput, pair_saveEntry_self key metaJson large.data _,
    Function.update_self _ _ _, maxSize_afterReplace _ _ _ _, currentSize_afterReplace_le _ _ _ _⟩

/-- A large entry of a key is put, then a small one, and the memory tier drops it. -/
theorem stale_small_after_large {S : Serde} (hS : S.RoundTrip) {large small : CacheEntry}
    {metaJson : Bytes} {maxSize : Nat} (key : CacheKey) (hlarge : 1024 * 1024 < large.size)
    (hjson : S.toVec large.metadata = .ok metaJson)
    (hroom : metaJson.length + large.data.length ≤ maxSize)
    (hsmall : small.size ≤ 1024 * 1024) (hne : small ≠ large) :
    ∃ t, Run (TieredStep S) (.init maxSize 0) [.put key large, .put key small, .drop key] t ∧
      ¬ Fresh S key t := by
  have hroom' : (Tiers.init maxSize 0).cache.disk.currentSize +
      (metaJson.length + large.data.length) ≤ (Tiers.init maxSize 0).cache.disk.maxSize := by
    simpa [Tiers.init, TieredCache.ofDisk] using hroom
  rcases put_large key hlarge hjson hroom' with ⟨s, hstep, hpair, -⟩
  have hbypass : bypassesDisk S s.cache.disk.maxSize small = true := by
    simp [bypassesDisk, Nat.not_lt.2 hsmall]
  rcases stale_of_bypass hS hjson hpair hbypass hne with ⟨t, hrun, hstale⟩
  exact ⟨t, .cons hstep hrun, hstale⟩

/-! ## An entry of 1 MiB -/

/-- An entry of so many zero bytes. -/
def zeroEntry (n : Nat) (hn : n < 2 ^ 63) : CacheEntry where
  data := List.replicate n 0
  headers := []
  status := 200
  timestamp := 0
  ttlSeconds := 3600
  data_lt := by rwa [List.length_replicate]

section Zero

variable (n : Nat) (hn : n < 2 ^ 63)

theorem length_zeroEntry : (zeroEntry n hn).data.length = n :=
  List.length_replicate

theorem size_zeroEntry : (zeroEntry n hn).size = n + 64 := by
  rw [CacheEntry.size, length_zeroEntry]
  rfl

def zeroMetadata : DiskCacheMetadata where
  headers := []
  status := 200
  timestamp := 0
  ttlSeconds := 3600
  dataSize := n

theorem metadata_zeroEntry : (zeroEntry n hn).metadata = zeroMetadata n := by
  rw [CacheEntry.metadata, length_zeroEntry]
  rfl

end Zero

theorem length_exampleText_zero : (exampleText (zeroMetadata (1024 * 1024))).length ≤ 200 := by
  decide +kernel

def mebiEntry : CacheEntry :=
  zeroEntry (1024 * 1024) (by decide)

def mebiSerde : Serde :=
  sampleSerde exampleText [mebiEntry.metadata]

theorem mebiSerde_roundTrip : mebiSerde.RoundTrip := by
  refine sampleSerde_roundTrip ?_
  intro a ha b hb _
  rw [List.mem_singleton.1 ha, List.mem_singleton.1 hb]

theorem shortEntry_ne_mebiEntry : shortEntry ≠ mebiEntry := by
  intro heq
  have hshort : shortEntry.ttlSeconds = 60 := rfl
  have hmebi : mebiEntry.ttlSeconds = 3600 := rfl
  rw [heq, hmebi] at hshort
  omega

theorem mebiEntry_large : 1024 * 1024 < mebiEntry.size := by
  rw [mebiEntry, size_zeroEntry]
  omega

theorem mebiSerde_toVec :
    mebiSerde.toVec mebiEntry.metadata = .ok (exampleText mebiEntry.metadata) :=
  sampleSerde_toVec (List.mem_singleton_self _)

theorem mebiEntry_room :
    (exampleText mebiEntry.metadata).length + mebiEntry.data.length ≤ 100 * 1024 ^ 3 := by
  rw [mebiEntry, metadata_zeroEntry, length_zeroEntry]
  calc
    (exampleText (zeroMetadata (1024 * 1024))).length + 1024 * 1024 ≤ 200 + 1024 * 1024 :=
          Nat.add_le_add_right length_exampleText_zero _
    _ ≤ 100 * 1024 ^ 3 := by decide

theorem not_fresh_small_after_large :
    ∃ t, Run (TieredStep mebiSerde) (.init (100 * 1024 ^ 3) 0)
        [.put exampleKey mebiEntry, .put exampleKey shortEntry, .drop exampleKey] t ∧
      ¬ Fresh mebiSerde exampleKey t :=
  stale_small_after_large mebiSerde_roundTrip exampleKey mebiEntry_large mebiSerde_toVec
    mebiEntry_room (by decide) shortEntry_ne_mebiEntry

/-! ## Two entries of 1 MiB and more -/

/-- A later entry, of one byte more. -/
def nextEntry : CacheEntry :=
  zeroEntry (1024 * 1024 + 1) (by decide)

def largeSerde : Serde :=
  sampleSerde exampleText [mebiEntry.metadata, nextEntry.metadata]

theorem largeSerde_roundTrip : largeSerde.RoundTrip := by
  refine sampleSerde_roundTrip ?_
  rw [mebiEntry, nextEntry, metadata_zeroEntry, metadata_zeroEntry]
  decide +kernel

/-- The entries for which there is room twice. -/
structure IsLarge (entry : CacheEntry) : Prop where
  size : 1024 * 1024 < entry.size
  toVec : largeSerde.toVec entry.metadata = .ok (exampleText entry.metadata)
  room : (exampleText entry.metadata).length + entry.data.length ≤ 50 * 1024 ^ 3

theorem mebiEntry_isLarge : IsLarge mebiEntry where
  size := mebiEntry_large
  toVec := sampleSerde_toVec List.mem_cons_self
  room := by
    rw [mebiEntry, metadata_zeroEntry, length_zeroEntry]
    calc
      (exampleText (zeroMetadata (1024 * 1024))).length + 1024 * 1024 ≤ 200 + 1024 * 1024 :=
            Nat.add_le_add_right length_exampleText_zero _
      _ ≤ 50 * 1024 ^ 3 := by decide

theorem nextEntry_isLarge : IsLarge nextEntry where
  size := by
    rw [nextEntry, size_zeroEntry]
    omega
  toVec := sampleSerde_toVec (List.mem_cons_of_mem _ (List.mem_singleton_self _))
  room := by
    have htext : (exampleText (zeroMetadata (1024 * 1024 + 1))).length ≤ 200 := by
      decide +kernel
    rw [nextEntry, metadata_zeroEntry, length_zeroEntry]
    calc
      (exampleText (zeroMetadata (1024 * 1024 + 1))).length + (1024 * 1024 + 1) ≤
          200 + (1024 * 1024 + 1) := Nat.add_le_add_right htext _
      _ ≤ 50 * 1024 ^ 3 := by decide

/-- It is not put past the disk. -/
theorem IsLarge.noBypass {entry : CacheEntry} (h : IsLarge entry) {s : Tiers}
    (hmax : 50 * 1024 ^ 3 ≤ s.cache.disk.maxSize) :
    NoBypass largeSerde exampleKey s (.put exampleKey entry) := by
  intro _ hbypass
  have hfits : ¬ s.cache.disk.maxSize <
      (exampleText entry.metadata).length + entry.data.length :=
    Nat.not_lt.2 (h.room.trans hmax)
  simp [bypassesDisk, h.size, h.toVec, hfits] at hbypass

/-- One after the other they are put to the disk, and memory drops the second. -/
theorem run_replaced {first second : CacheEntry} (hfirst : IsLarge first)
    (hsecond : IsLarge second) :
    ∃ t, Run (Guarded (TieredStep largeSerde) (NoBypass largeSerde exampleKey))
        (.init (100 * 1024 ^ 3) 0)
        [.put exampleKey first, .put exampleKey second, .drop exampleKey] t ∧
      t.latest exampleKey = some second ∧
      pair t.files exampleKey = (some (exampleText second.metadata), some second.data) := by
  have hroom := hfirst.room
  have hroom' := hsecond.room
  have hempty : (Tiers.init (100 * 1024 ^ 3) 0).cache.disk.currentSize +
      ((exampleText first.metadata).length + first.data.length) ≤
        (Tiers.init (100 * 1024 ^ 3) 0).cache.disk.maxSize := by
    simp only [Tiers.init, TieredCache.ofDisk]
    omega
  rcases put_large exampleKey hfirst.size hfirst.toVec hempty with ⟨s, hput, -, -, hmax, hsize⟩
  simp only [Tiers.init, TieredCache.ofDisk] at hmax hsize
  rcases put_large (s := s) exampleKey hsecond.size hsecond.toVec (by omega) with
    ⟨t, hput', hpair, hlatest, -⟩
  exact ⟨_, .cons ⟨hput, hfirst.noBypass (by decide)⟩ (.cons ⟨hput', hsecond.noBypass (by omega)⟩
    (.cons ⟨.drop, trivial⟩ (.nil _))), hlatest, hpair⟩

/-- From the disk comes the second entry. -/
theorem fresh_of_noBypass_replaced :
    ∃ t, Run (Guarded (TieredStep largeSerde) (NoBypass largeSerde exampleKey))
        (.init (100 * 1024 ^ 3) 0)
        [.put exampleKey mebiEntry, .put exampleKey nextEntry, .drop exampleKey] t ∧
      t.latest exampleKey = some nextEntry ∧
      pair t.files exampleKey = (some (exampleText nextEntry.metadata), some nextEntry.data) ∧
      Fresh largeSerde exampleKey t := by
  rcases run_replaced mebiEntry_isLarge nextEntry_isLarge with ⟨t, hrun, hlatest, hpair⟩
  refine ⟨t, hrun, hlatest, hpair, fresh_of_noBypass largeSerde_roundTrip ?_ hrun⟩
  intro op hop _
  simp only [List.mem_cons, List.not_mem_nil, or_false] at hop
  rcases hop with rfl | rfl | rfl <;> rfl

end Cache
end Squiddish
