import Squiddish.Cache.Example
import Squiddish.Cache.Tiered
import Squiddish.Proxy.Respond

/-!
# Damage — what a request makes of damaged cache files

`read_entry` trusts what stands in the two files of a key.  Metadata that does not parse is an error
that reaches the client, a size that cannot be allocated ends the task, and data of another length
than the recorded one is served.  `costsMiss_iff` says for which files none of this happens, and
`perform_handleAll_unparsable` that a URL with metadata that does not parse stays broken.
-/

namespace Squiddish
namespace Proxy

open Lib Cache

/-! ## The handler -/

/-- What becomes of a request in `handle_cacheable_request` once the cache has been asked. -/
inductive Handled
  /-- The `?` behind `cache.get`, or a panic in it. -/
  | failed (e : Failure)
  | hit (response : FullResponse)
  /-- A download is joined or started. -/
  | fetch
  deriving DecidableEq, Repr

/-- `handle_cacheable_request` up to the download, which builds a response at the time `sent`. -/
def handleCacheable (S : Serde) (key : CacheKey) (now later sent : Nat) (cache : TieredCache) :
    DiskProg (Handled × TieredCache) :=
  cache.get S key now later >>= fun r =>
    match r.1 with
    | .error e => .ret (.failed e, r.2)
    | .ok (some entry) => .ret (.hit (buildResponseFromCache entry sent), r.2)
    | .ok none => .ret (.fetch, r.2)

/-! ## What is read -/

/-- The capacity `read_entry` asks the allocator for. -/
def capacityAsked (S : Serde) : Option Bytes × Option Bytes → Option Nat
  | (some metaJson, some _) =>
      match S.fromSlice metaJson with
      | .error _ => none
      | .ok metadata => some metadata.dataSize
  | _ => none

section Read

variable {S : Serde} {s : FileStore Path} {key : CacheKey}

/-- An entry that is expired is not answered with. -/
def unlessExpired (later : Nat) : Outcome (Option CacheEntry) → Outcome (Option CacheEntry)
  | .ok (some entry) => if entry.isExpired later then .ok none else .ok (some entry)
  | r => r

/-- How the handler goes on with what the cache answers. -/
def answerOf (sent : Nat) : Outcome (Option CacheEntry) → Handled
  | .error e => .failed e
  | .ok (some entry) => .hit (buildResponseFromCache entry sent)
  | .ok none => .fetch

/-- The memory tier has an entry of this key that is not expired. -/
def LiveInMemory (cache : TieredCache) (key : CacheKey) (now : Nat) : Prop :=
  ∃ entry, cache.memory key = some entry ∧ entry.isExpired now = false

variable {cache : TieredCache} {now later : Nat}

theorem getFromDisk_eq : (perform (cache.getFromDisk S key later) s).1.1 =
    unlessExpired later (readPair S (pair s key)) := by
  rw [← get_eq_readPair]
  simp only [TieredCache.getFromDisk, perform, Prog.exec_bind]
  rcases hget : Prog.exec FileOp.apply (DiskCache.get S key) s with ⟨r, t⟩
  rcases r with e | _ | entry
  · rfl
  · rfl
  · cases hexpired : entry.isExpired later <;> simp [unlessExpired, hexpired]

theorem get_of_live {entry : CacheEntry} (hmem : cache.memory key = some entry)
    (hlive : entry.isExpired now = false) :
    perform (cache.get S key now later) s = ((.ok (some entry), cache), s) := by
  simp [TieredCache.get, hmem, hlive]

theorem get_of_not_live (h : ¬ LiveInMemory cache key now) :
    (perform (cache.get S key now later) s).1.1 =
      unlessExpired later (readPair S (pair s key)) := by
  cases hmem : cache.memory key with
  | none =>
      simpa [TieredCache.get, hmem] using getFromDisk_eq
  | some entry =>
      have hexpired : entry.isExpired now = true := by
        by_contra hlive
        exact h ⟨entry, hmem, by simpa using hlive⟩
      have hget : cache.get S key now later = (cache.forget key).getFromDisk S key later := by
        simp [TieredCache.get, hmem, hexpired]
      rw [hget]
      exact getFromDisk_eq

theorem handleCacheable_eq (sent : Nat) :
    perform (handleCacheable S key now later sent cache) s =
      ((answerOf sent (perform (cache.get S key now later) s).1.1,
        (perform (cache.get S key now later) s).1.2),
        (perform (cache.get S key now later) s).2) := by
  simp only [handleCacheable, perform, Prog.exec_bind]
  rcases Prog.exec FileOp.apply (cache.get S key now later) s with ⟨⟨r, cache'⟩, t⟩
  rcases r with e | _ | entry <;> rfl

end Read

/-! ## The cost of damage -/

section Cost

variable (granted : Nat → Prop) (S : Serde) (s : FileStore Path) (cache : TieredCache)
  (key : CacheKey) (now later sent : Nat)

/-- The metadata parses and the data has the recorded length. -/
def WellFormed (p : Option Bytes × Option Bytes) : Prop :=
  ∃ metaJson data metadata, p = (some metaJson, some data) ∧
    S.fromSlice metaJson = .ok metadata ∧ data.length = metadata.dataSize

/-- Whatever the files hold, a request of the key is answered from good files or proceeds to the
fetch, whose put makes the key readable.  The allocator grants the capacities in `granted`; where it
refuses one the process aborts. -/
structure CostsMiss : Prop where
  returns : ∃ r, (perform (cache.get S key now later) s).1.1 = .ok r
  allocates : ¬ LiveInMemory cache key now →
    ∀ n, capacityAsked S (pair s key) = some n → granted n
  found : ∀ entry, (perform (cache.get S key now later) s).1.1 = .ok (some entry) →
    LiveInMemory cache key now ∨ WellFormed S (pair s key)
  fetches : ¬ LiveInMemory cache key now → ¬ WellFormed S (pair s key) →
    (perform (handleCacheable S key now later sent cache) s).1.1 = .fetch
  repaired : ∀ entry cache' t,
    perform ((perform (handleCacheable S key now later sent cache) s).1.2.put S key entry)
      (perform (handleCacheable S key now later sent cache) s).2 = ((.ok (), cache'), t) →
    ∀ now' later', entry.isExpired now' = false →
      (perform (cache'.get S key now' later') t).1.1 = .ok (some entry)

/-- A file is missing, or the metadata parses, the recorded size can be allocated, and it is the
length of the data or the entry has expired. -/
def HarmlessPair (p : Option Bytes × Option Bytes) : Prop :=
  p.1 = none ∨ p.2 = none ∨ ∃ metaJson data metadata, ∃ hdata : data.length < 2 ^ 63,
    p = (some metaJson, some data) ∧ S.fromSlice metaJson = .ok metadata ∧
      granted metadata.dataSize ∧ metadata.dataSize < 2 ^ 63 ∧
      (data.length = metadata.dataSize ∨ (entryOf metadata data hdata).isExpired later = true)

end Cost

section Exact

variable {granted : Nat → Prop} {S : Serde} {s : FileStore Path} {cache : TieredCache}
  {key : CacheKey} {now later : Nat}

/-- A put that succeeds is in memory. -/
theorem get_after_put {entry : CacheEntry} {cache' : TieredCache} {t : FileStore Path}
    (h : perform (cache.put S key entry) s = ((.ok (), cache'), t)) {now' : Nat}
    (hlive : entry.isExpired now' = false) (later' : Nat) :
    (perform (cache'.get S key now' later') t).1.1 = .ok (some entry) := by
  have hmem : cache'.memory key = some entry := by
    by_cases hlarge : 1024 * 1024 < entry.size
    · simp only [TieredCache.put, if_pos hlarge, perform, Prog.exec_bind] at h
      rcases hdisk : Prog.exec FileOp.apply (DiskCache.put S key entry cache.disk) s with
        ⟨⟨r, disk⟩, u⟩
      rw [hdisk] at h
      rcases r with e | _
      · cases h
      · have hcache : TieredCache.remember { cache with disk := disk } key entry = cache' :=
          congrArg (fun x => x.1.2) h
        rw [← hcache, TieredCache.memory_remember_self]
    · simp only [TieredCache.put, if_neg hlarge, perform, Prog.exec_ret] at h
      have hcache : cache.remember key entry = cache' := congrArg (fun x => x.1.2) h
      rw [← hcache, TieredCache.memory_remember_self]
  rw [get_of_live hmem hlive]

theorem unlessExpired_readBuffer {metadata : DiskCacheMetadata} {data : Bytes}
    (hsize : metadata.dataSize < 2 ^ 63) (hdata : data.length < 2 ^ 63) :
    unlessExpired later (readBuffer metadata data) =
      if (entryOf metadata data hdata).isExpired later then .ok none
      else .ok (some (entryOf metadata data hdata)) := by
  rw [readBuffer, if_pos hsize, dif_pos hdata, unlessExpired]

/-- What can be read into a buffer is small enough. -/
theorem lt_of_unlessExpired_ok {metadata : DiskCacheMetadata} {data : Bytes}
    {r : Option CacheEntry} (h : unlessExpired later (readBuffer metadata data) = .ok r) :
    metadata.dataSize < 2 ^ 63 ∧ data.length < 2 ^ 63 := by
  by_cases hsize : metadata.dataSize < 2 ^ 63
  · by_cases hdata : data.length < 2 ^ 63
    · exact ⟨hsize, hdata⟩
    · rw [readBuffer, if_pos hsize, dif_neg hdata] at h
      cases h
  · rw [readBuffer, if_neg hsize] at h
    cases h

theorem capacityAsked_of_missing (S : Serde) {p : Option Bytes × Option Bytes}
    (h : p.1 = none ∨ p.2 = none) : capacityAsked S p = none := by
  rcases p with ⟨_ | metaJson, _ | data⟩
  · rfl
  · rfl
  · rfl
  · rcases h with h | h <;> cases h

/-- What is asked of a pair of files is what makes it harmless. -/
theorem harmlessPair_iff {p : Option Bytes × Option Bytes} :
    HarmlessPair granted S later p ↔
      (∃ r, unlessExpired later (readPair S p) = .ok r) ∧
        (∀ n, capacityAsked S p = some n → granted n) ∧
        ∀ entry, unlessExpired later (readPair S p) = .ok (some entry) → WellFormed S p := by
  constructor
  · intro h
    rcases or_assoc.2 h with hmissing | ⟨metaJson, data, metadata, hlt, rfl, hback, hgranted,
      hsize, hgood⟩
    · rw [readPair_of_missing S hmissing, capacityAsked_of_missing S hmissing]
      refine ⟨⟨none, rfl⟩, ?_, ?_⟩
      · intro n hn
        cases hn
      · intro entry hentry
        cases hentry
    · have hread : readPair S (some metaJson, some data) = readBuffer metadata data := by
        simp [readPair, hback]
      have hasked : capacityAsked S (some metaJson, some data) = some metadata.dataSize := by
        simp [capacityAsked, hback]
      rw [hread, hasked, unlessExpired_readBuffer hsize hlt]
      refine ⟨?_, fun n hn => Option.some.inj hn ▸ hgranted, ?_⟩
      · cases (entryOf metadata data hlt).isExpired later
        · exact ⟨_, rfl⟩
        · exact ⟨_, rfl⟩
      -- an expired entry is not answered with, and any other has the recorded length
      · intro entry hentry
        rcases hgood with hlength | hexpired
        · exact ⟨metaJson, data, metadata, rfl, hback, hlength⟩
        · rw [hexpired] at hentry
          cases hentry
  · rintro ⟨⟨r, hr⟩, hgranted, hfound⟩
    rcases p with ⟨_ | metaJson, _ | data⟩
    · exact Or.inl rfl
    · exact Or.inl rfl
    · exact Or.inr (Or.inl rfl)
    · right
      right
      cases hback : S.fromSlice metaJson with
      | error text =>
          simp [readPair, hback, unlessExpired] at hr
      | ok metadata =>
          have hread : readPair S (some metaJson, some data) = readBuffer metadata data := by
            simp [readPair, hback]
          rw [hread] at hr hfound
          obtain ⟨hsize, hlt⟩ := lt_of_unlessExpired_ok hr
          refine ⟨metaJson, data, metadata, hlt, rfl, hback, ?_, hsize, ?_⟩
          · exact hgranted _ (by simp [capacityAsked, hback])
          · rw [unlessExpired_readBuffer hsize hlt] at hfound
            by_cases hexpired : (entryOf metadata data hlt).isExpired later = true
            · exact Or.inr hexpired
            · obtain ⟨metaJson', data', metadata', hpair, hback', hlength⟩ :=
                hfound _ (if_neg hexpired)
              cases hpair
              rw [hback] at hback'
              cases hback'
              exact Or.inl hlength

/-- Damaged files cost a miss exactly when the memory tier answers or the files are harmless. -/
theorem costsMiss_iff (granted : Nat → Prop) (S : Serde) (s : FileStore Path)
    (cache : TieredCache) (key : CacheKey) (now later sent : Nat) :
    CostsMiss granted S s cache key now later sent ↔
      LiveInMemory cache key now ∨ HarmlessPair granted S later (pair s key) := by
  by_cases hlive : LiveInMemory cache key now
  · refine iff_of_true ?_ (Or.inl hlive)
    obtain ⟨entry, hmem, hfresh⟩ := id hlive
    refine
      { returns := ⟨_, congrArg (fun x => x.1.1) (get_of_live hmem hfresh)⟩
        allocates := fun hnot => absurd hlive hnot
        found := fun _ _ => Or.inl hlive
        fetches := fun hnot => absurd hlive hnot
        repaired := fun _ _ _ hput _ later' hentry => get_after_put hput hentry later' }
  · have hget : (perform (cache.get S key now later) s).1.1 =
        unlessExpired later (readPair S (pair s key)) := get_of_not_live hlive
    rw [harmlessPair_iff, ← hget]
    constructor
    · intro h
      refine Or.inr ⟨h.returns, h.allocates hlive, ?_⟩
      intro entry hentry
      exact (h.found entry hentry).resolve_left hlive
    · rintro (hmem | ⟨hreturns, hgranted, hfound⟩)
      · exact absurd hmem hlive
      · refine
          { returns := hreturns
            allocates := fun _ => hgranted
            found := fun entry hentry => Or.inr (hfound entry hentry)
            fetches := fun _ hbad => ?_
            repaired := fun _ _ _ hput _ later' hentry => get_after_put hput hentry later' }
        rw [handleCacheable_eq]
        obtain ⟨_ | entry, hr⟩ := hreturns
        · rw [hr]
          rfl
        · exact absurd (hfound entry hr) hbad

end Exact

/-! ## Metadata that does not parse -/

/-- Requests of one key, one after the other, each with the times at which it looks at the memory
tier and at the disk and builds its response. -/
def handleAll (S : Serde) (key : CacheKey) :
    List (Nat × Nat × Nat) → TieredCache → DiskProg (List Handled × TieredCache)
  | [], cache => .ret ([], cache)
  | (now, later, sent) :: requests, cache =>
      handleCacheable S key now later sent cache >>= fun r =>
        handleAll S key requests r.2 >>= fun rest => .ret (r.1 :: rest.1, rest.2)

section Unparsable

variable {S : Serde} {s : FileStore Path} {cache : TieredCache} {key : CacheKey}
  {metaJson data : Bytes} {text : Str}

theorem handleCacheable_unparsable (hpair : pair s key = (some metaJson, some data))
    (hback : S.fromSlice metaJson = .error text) (hmem : cache.memory key = none)
    (now later sent : Nat) :
    perform (handleCacheable S key now later sent cache) s =
      ((.failed (deserializeError text), cache), s) := by
  have hget : perform (DiskCache.get S key) s = (.error (deserializeError text), s) := by
    refine Prod.ext ?_ (perform_get_store S key s)
    rw [get_eq_readPair, hpair]
    simp [readPair, hback]
  have htiered : perform (cache.get S key now later) s =
      ((.error (deserializeError text), cache), s) := by
    simp only [TieredCache.get, hmem, TieredCache.getFromDisk, perform, Prog.exec_bind]
    rw [show Prog.exec FileOp.apply (DiskCache.get S key) s = _ from hget]
    rfl
  rw [handleCacheable_eq, htiered]
  rfl

/-- No request of the key gets past the error and none changes the files: as long as nothing else
does, the URL stays broken. -/
theorem handleAll_unparsable (hpair : pair s key = (some metaJson, some data))
    (hback : S.fromSlice metaJson = .error text) (hmem : cache.memory key = none)
    (requests : List (Nat × Nat × Nat)) :
    perform (handleAll S key requests cache) s =
      ((requests.map (fun _ => .failed (deserializeError text)), cache), s) := by
  induction requests with
  | nil =>
      rfl
  | cons request requests ih =>
      obtain ⟨now, later, sent⟩ := request
      have hfirst := handleCacheable_unparsable hpair hback hmem now later sent
      simp only [perform] at hfirst ih
      simp [handleAll, hfirst, ih]

end Unparsable

/-- The files of the key hold metadata that is no JSON, and no data. -/
def garbageFiles : FileStore Path :=
  saveEntry exampleKey [120] [] (FileStore.empty 0)

def emptyCache : TieredCache :=
  .ofDisk { maxSize := 1024, currentSize := 1, evictionOrder := [exampleKey.hashHex] }

theorem not_costsMiss_garbage :
    ¬ CostsMiss (fun n => n < 2 ^ 32) exampleSerde garbageFiles emptyCache exampleKey 0 0 0 := by
  intro h
  obtain ⟨r, hr⟩ := h.returns
  have hpair : pair garbageFiles exampleKey = (some [120], some []) :=
    pair_saveEntry_self exampleKey [120] [] (FileStore.empty 0)
  have hlive : ¬ LiveInMemory emptyCache exampleKey 0 := by
    rintro ⟨entry, hentry, -⟩
    cases hentry
  have hback : exampleSerde.fromSlice [120] = .error sampleError := by
    decide +kernel
  rw [get_of_not_live hlive, hpair] at hr
  simp [readPair, hback, unlessExpired] at hr

end Proxy
end Squiddish
