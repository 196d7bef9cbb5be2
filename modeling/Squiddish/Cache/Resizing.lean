import Squiddish.Cache.Restarts

/-!
# Resizing — restarts with another limit

The limit of the disk cache is a setting, so a cache may be opened again with another one than it was
filled under.  `DiskCache::new` forgets nothing: a cache that is over its new limit is brought under
it by the next put it accepts, and until then it is no larger than the limits since the last such put
let it be (`refinesResized_of_run`).
-/

namespace Squiddish
namespace Cache

open Lib

variable {S : Serde} {m : Fifo Str CacheEntry} {s t : OpenCache}

/-! ## Another limit -/

def DiskCache.resize (cache : DiskCache) (maxSize : Nat) : DiskCache :=
  { cache with maxSize := maxSize }

def OpenCache.resize (s : OpenCache) (maxSize : Nat) : OpenCache :=
  { s with cache := s.cache.resize maxSize }

@[simp] theorem DiskCache.resize_resize (cache : DiskCache) (n k : Nat) :
    (cache.resize n).resize k = cache.resize k := rfl

@[simp] theorem DiskCache.resize_self (cache : DiskCache) :
    cache.resize cache.maxSize = cache := rfl

theorem perform_rebuildIndex_resize (walk : List Path) (cache : DiskCache) (maxSize : Nat)
    (files : FileStore Path) :
    perform (rebuildIndex walk (cache.resize maxSize)) files =
      ((perform (rebuildIndex walk cache) files).1.resize maxSize,
        (perform (rebuildIndex walk cache) files).2) := by
  simp [rebuildIndex, DiskCache.resize]

/-- What `DiskCache::new` finds does not depend on the limit. -/
theorem perform_new_resize {maxSize : Nat} {walk : List Path} {files files' : FileStore Path}
    {cache : DiskCache} (h : perform (DiskCache.new maxSize walk) files = (.ok cache, files'))
    (limit : Nat) :
    perform (DiskCache.new limit walk) files = (.ok (cache.resize limit), files') := by
  have hindex := perform_rebuildIndex_resize walk
    { maxSize := maxSize, currentSize := 0, evictionOrder := [] } limit
    (FileOp.apply (.createDirAll []) files).2
  simp only [DiskCache.resize] at hindex
  cases hdir : (FileOp.apply (.createDirAll []) files).1 with
  | error e =>
      simp [DiskCache.new, hdir] at h
  | ok _ =>
      simp only [DiskCache.new, perform, Prog.exec_call, hdir, Prog.exec_bind,
        Prog.exec_ret] at h ⊢
      cases h
      simp [hindex, DiskCache.resize]

/-- Making room below a limit is making as much more room below a larger one. -/
theorem perform_evictIfNeeded_resize {cache : DiskCache} {limit : Nat}
    (hle : cache.maxSize ≤ limit) (neededSize : Nat) (files : FileStore Path) :
    perform (evictIfNeeded (neededSize + (limit - cache.maxSize)) (cache.resize limit)) files =
      (((perform (evictIfNeeded neededSize cache) files).1.1,
        (perform (evictIfNeeded neededSize cache) files).1.2.resize limit),
        (perform (evictIfNeeded neededSize cache) files).2) := by
  have hfits : cache.currentSize + (neededSize + (limit - cache.maxSize)) ≤ limit ↔
      cache.currentSize + neededSize ≤ cache.maxSize := by
    omega
  have htarget : limit - (neededSize + (limit - cache.maxSize)) = cache.maxSize - neededSize := by
    omega
  by_cases h : cache.currentSize + neededSize ≤ cache.maxSize
  · simp [evictIfNeeded, DiskCache.resize, hfits, h]
  · simp only [evictIfNeeded, DiskCache.resize, hfits, h, htarget, if_false, perform,
      Prog.exec_bind]
    split <;> rfl

/-! ## A cache that may be over its limit -/

/-- Under a limit that is large enough the open cache is in step with the map. -/
def Holding (S : Serde) (m : Fifo Str CacheEntry) (s : OpenCache) : Prop :=
  ∃ limit, s.cache.maxSize ≤ limit ∧ Represents S limit m (s.resize limit)

theorem Represents.holding {maxSize : Nat} (h : Represents S maxSize m s) : Holding S m s := by
  obtain rfl := h.limit
  exact ⟨s.cache.maxSize, Nat.le_refl _, h⟩

theorem Represents.enlarge {maxSize limit : Nat} (h : Represents S maxSize m s)
    (hle : maxSize ≤ limit) : Represents S limit m (s.resize limit) where
  holds := h.holds
  limit := rfl
  order := h.order
  size := h.size
  bound := h.bound.trans hle

namespace Holding

theorem order (h : Holding S m s) : s.cache.evictionOrder = m.keys := by
  rcases h with ⟨limit, -, h⟩
  exact h.order

theorem size (h : Holding S m s) : s.cache.currentSize = m.total (diskSize S) := by
  rcases h with ⟨limit, -, h⟩
  exact h.size

theorem lookup (h : Holding S m s) (hround : S.RoundTrip) (key : CacheKey) :
    Cache.lookup S s key = .ok (m.get key.hashHex) := by
  rcases h with ⟨limit, -, h⟩
  exact h.lookup hround key

theorem setClock (h : Holding S m s) (now : Nat) :
    Holding S m { s with files := s.files.setClock now } := by
  rcases h with ⟨limit, hle, h⟩
  exact ⟨limit, hle, h.setClock now⟩

theorem olderThan (h : Holding S m s) {now : Nat} (hnow : MetaBefore now s.files) :
    OlderThan now s.files m := by
  rcases h with ⟨limit, -, h⟩
  exact h.olderThan hnow

/-- Opening the cache again, with whatever limit, finds it as it was. -/
theorem new (h : Holding S m s) {walk : List Path} (hwalk : walk.Perm s.files.names.toList)
    (maxSize : Nat) :
    perform (DiskCache.new maxSize walk) s.files =
      (.ok (s.cache.resize maxSize), s.files) := by
  rcases h with ⟨limit, -, h⟩
  exact perform_new_resize (h.new hwalk) maxSize

theorem resize (h : Holding S m s) (maxSize : Nat) : Holding S m (s.resize maxSize) := by
  rcases h with ⟨limit, hle, h⟩
  refine ⟨max maxSize limit, Nat.le_max_left _ _, ?_⟩
  exact h.enlarge (Nat.le_max_right _ _)

theorem remove (h : Holding S m s) (key : CacheKey) :
    ∃ t : OpenCache, perform (DiskCache.remove key s.cache) s.files =
        ((.ok (), t.cache), t.files) ∧ t.cache.maxSize = s.cache.maxSize ∧
      Holding S (m.erase key.hashHex) t := by
  rcases h with ⟨limit, hle, h⟩
  rcases h.remove key with ⟨v, hremove, hv⟩
  rw [perform_remove] at hremove
  cases v with
  | mk files cache =>
      cases hremove
      exact ⟨⟨dropFiles key.filePath s.files, _⟩, perform_remove key s.cache s.files, rfl, limit,
        hle, hv⟩

/-- An eviction brings the cache under its limit, by as much as is needed. -/
theorem evictIfNeeded (h : Holding S m s) {neededSize : Nat}
    (hneeded : neededSize ≤ s.cache.maxSize) :
    ∃ v : OpenCache, perform (Cache.evictIfNeeded neededSize s.cache) s.files =
        ((.ok (), v.cache), v.files) ∧
      Represents S s.cache.maxSize
        (m.evict (diskSize S) (s.cache.maxSize - neededSize)) v ∧
      v.files.clock = s.files.clock ∧
      ∀ now, OlderThan now s.files m →
        OlderThan now v.files (m.evict (diskSize S) (s.cache.maxSize - neededSize)) := by
  rcases h with ⟨limit, hle, h⟩
  have hlimit : neededSize + (limit - s.cache.maxSize) ≤ limit := by
    omega
  have htarget : limit - (neededSize + (limit - s.cache.maxSize)) =
      s.cache.maxSize - neededSize := by
    omega
  rcases h.evictIfNeeded _ hlimit with ⟨v, hevict, hv, hclock, hold⟩
  rw [htarget] at hv hold
  have hsame := (perform_evictIfNeeded_resize hle neededSize s.files).symm.trans hevict
  have hmax := maxSize_evictIfNeeded neededSize s.cache s.files
  generalize perform (Cache.evictIfNeeded neededSize s.cache) s.files = r at hsame hmax
  rcases r with ⟨⟨outcome, cache⟩, files⟩
  rcases v with ⟨files', cache'⟩
  cases hsame
  have hroom := Fifo.total_evict_le (diskSize S) (s.cache.maxSize - neededSize) m
  refine ⟨⟨files, cache⟩, rfl, ⟨hv.holds, hmax, hv.order, hv.size, ?_⟩, hclock, hold⟩
  exact hroom.trans (Nat.sub_le _ _)

/-- A put that is accepted brings the cache under its limit. -/
theorem put (h : Holding S m s) (hS : S.NonEmpty) (key : CacheKey) {entry : CacheEntry}
    (hfits : fits S s.cache.maxSize entry = true) (hold : OlderThan s.files.clock s.files m) :
    ∃ t : OpenCache, perform (DiskCache.put S key entry s.cache) s.files =
        ((.ok (), t.cache), t.files) ∧
      Represents S s.cache.maxSize
        (m.insert (diskSize S) s.cache.maxSize key.hashHex entry) t := by
  rcases fits_eq_true.1 hfits with ⟨metaJson, hjson, hle⟩
  rcases h.evictIfNeeded hle with ⟨v, hevict, hv, hclock, holdv⟩
  have hroom := Fifo.total_evict_le (diskSize S)
    (s.cache.maxSize - (metaJson.length + entry.data.length)) m
  have hlimit := hv.limit
  have hsize := hv.size
  -- once room has been made, the put is one of a cache under its limit
  have hsame : perform (DiskCache.put S key entry s.cache) s.files =
      perform (DiskCache.put S key entry v.cache) v.files := by
    have hdone : v.cache.currentSize + (metaJson.length + entry.data.length) ≤
        v.cache.maxSize := by
      omega
    rw [put_of_fits hjson hle, put_of_fits hjson (hlimit ▸ hle)]
    simp only [perform, Prog.exec_bind]
    rw [show Prog.exec FileOp.apply _ s.files = _ from hevict]
    simp [Cache.evictIfNeeded, hdone]
  rcases hv.put hS key hfits (hclock ▸ holdv _ hold) with ⟨t, hput, ht⟩
  refine ⟨t, hsame.trans hput, ?_⟩
  rw [← diskSize_of_toVec hjson] at hroom ht
  have hinsert : Fifo.insert (diskSize S) s.cache.maxSize key.hashHex entry
      (m.evict (diskSize S) (s.cache.maxSize - diskSize S entry)) =
        m.insert (diskSize S) s.cache.maxSize key.hashHex entry := by
    rw [Fifo.insert, Fifo.evict_of_le (diskSize S) hroom, Fifo.insert]
  rwa [hinsert] at ht

end Holding

/-! ## Runs -/

/-- An operation, or the cache is dropped and opened again with a limit of its own. -/
inductive ResizeOp
  | op (o : DiskOp)
  | reopen (maxSize : Nat)
  deriving DecidableEq, Repr

inductive ResizeStep (S : Serde) : OpenCache → ResizeOp → OpenCache → Prop
  | op {s t : OpenCache} {o : DiskOp} :
      CacheStep S s (.op o) t → ResizeStep S s (.op o) t
  | reopen {s t : OpenCache} {walk : List Path} {maxSize : Nat} :
      walk.Perm s.files.names.toList →
      perform (DiskCache.new maxSize walk) s.files = (.ok t.cache, t.files) →
      ResizeStep S s (.reopen maxSize) t

/-- What a run builds. -/
structure SizedMap where
  maxSize : Nat
  /-- The largest limit since the last put that was accepted. -/
  allowed : Nat
  map : Fifo Str CacheEntry

def DiskOp.accepted (S : Serde) (maxSize : Nat) : DiskOp → Bool
  | .put _ entry => fits S maxSize entry
  | _ => false

def ResizeOp.apply (S : Serde) (m : SizedMap) : ResizeOp → SizedMap
  | .op o =>
      { m with
        allowed := if o.accepted S m.maxSize then m.maxSize else m.allowed
        map := (o.fifo S m.maxSize).elim m.map
          (fun op => op.apply (diskSize S) m.maxSize m.map) }
  | .reopen maxSize =>
      { m with maxSize := maxSize, allowed := max m.allowed maxSize }

def sizedMapOf (S : Serde) (maxSize : Nat) (ops : List ResizeOp) : SizedMap :=
  ops.foldl (ResizeOp.apply S) { maxSize := maxSize, allowed := maxSize, map := [] }

/-- The open cache is in step with what the run builds. -/
structure Sized (S : Serde) (m : SizedMap) (s : OpenCache) : Prop where
  holding : Holding S m.map s
  limit : s.cache.maxSize = m.maxSize
  bound : m.map.total (diskSize S) ≤ m.allowed

namespace Sized

theorem fresh (S : Serde) (maxSize now : Nat) :
    Sized S { maxSize := maxSize, allowed := maxSize, map := [] }
      (OpenCache.fresh maxSize now) where
  holding := (Represents.fresh S maxSize now).holding
  limit := rfl
  bound := Nat.zero_le _

theorem diskOp {m : SizedMap} (h : Sized S m s) (hS : S.NonEmpty) {o : DiskOp}
    (hstep : CacheStep S s (.op o) t) : Sized S (ResizeOp.apply S m (.op o)) t := by
  cases hstep with
  | @op _ _ now hnow hexec =>
      have hclock := h.holding.setClock now
      cases o with
      | put key entry =>
          by_cases hfits : fits S m.maxSize entry = true
          · have hfits' : fits S s.cache.maxSize entry = true := h.limit ▸ hfits
            have hold := h.holding.olderThan (hnow key entry rfl hfits')
            rcases hclock.put hS key hfits' hold with ⟨v, hput, hv⟩
            have hvt : v = t := OpenCache.eq_of_pair (by simpa [DiskOp.run, hput] using hexec)
            subst hvt
            rw [show ({ s with files := s.files.setClock now } : OpenCache).cache.maxSize =
              m.maxSize from h.limit] at hv
            refine ⟨?_, hv.limit, ?_⟩
            · simpa [ResizeOp.apply, DiskOp.fifo, hfits, Fifo.Op.apply] using hv.holding
            · simpa [ResizeOp.apply, DiskOp.fifo, DiskOp.accepted, hfits, Fifo.Op.apply]
                using hv.bound
          · have hnot : fits S s.cache.maxSize entry = false := by
              rw [h.limit]
              simpa using hfits
            rcases perform_put_of_not_fits hnot key (s.files.setClock now) with ⟨r, hput⟩
            have hst : { s with files := s.files.setClock now } = t :=
              OpenCache.eq_of_pair (by simpa [DiskOp.run, hput] using hexec)
            subst hst
            refine ⟨?_, h.limit, ?_⟩
            · simpa [ResizeOp.apply, DiskOp.fifo, hfits] using hclock
            · simpa [ResizeOp.apply, DiskOp.fifo, DiskOp.accepted, hfits] using h.bound
      | get key =>
          have hst : { s with files := s.files.setClock now } = t :=
            OpenCache.eq_of_pair (by simpa [DiskOp.run, perform_get_store] using hexec)
          subst hst
          exact ⟨hclock, h.limit, h.bound⟩
      | remove key =>
          rcases hclock.remove key with ⟨v, hremove, hmax, hv⟩
          have heq : (v.cache, v.files) = (t.cache, t.files) := by
            rw [DiskOp.run, perform, Prog.exec_bind] at hexec
            exact (congrArg (fun r => (r.1.2, r.2)) hremove).symm.trans hexec
          have hvt : v = t := OpenCache.eq_of_pair heq
          subst hvt
          have hless := Fifo.total_erase_add (diskSize S) key.hashHex m.map
          refine ⟨hv, hmax.trans h.limit, ?_⟩
          have hle : Fifo.total (diskSize S) (m.map.erase key.hashHex) ≤
              m.map.total (diskSize S) := by
            omega
          exact hle.trans h.bound

theorem step {m : SizedMap} (h : Sized S m s) (hS : S.NonEmpty) {o : ResizeOp}
    (hstep : ResizeStep S s o t) : Sized S (ResizeOp.apply S m o) t := by
  cases hstep with
  | op hstep =>
      exact h.diskOp hS hstep
  | @reopen _ walk maxSize hwalk hexec =>
      rw [h.holding.new hwalk] at hexec
      have hpair : (s.cache.resize maxSize, s.files) = (t.cache, t.files) := by
        simpa using hexec
      have hst : s.resize maxSize = t := OpenCache.eq_of_pair hpair
      subst hst
      exact ⟨h.holding.resize maxSize, rfl, h.bound.trans (Nat.le_max_left _ _)⟩

theorem of_run (hS : S.NonEmpty) {maxSize now : Nat} {ops : List ResizeOp}
    (hrun : Run (ResizeStep S) (OpenCache.fresh maxSize now) ops s) :
    Sized S (sizedMapOf S maxSize ops) s := by
  have hstep : ∀ (as : List ResizeOp) s o t, Sized S (sizedMapOf S maxSize as) s →
      ResizeStep S s o t → Sized S (sizedMapOf S maxSize (as ++ [o])) t := by
    intro as s o t h hst
    rw [sizedMapOf, List.foldl_append]
    exact h.step hS hst
  simpa using hrun.history (I := fun ops s => Sized S (sizedMapOf S maxSize ops) s)
    (b := []) hstep (fresh S maxSize now)

end Sized

/-- The cache at the end of a run, in which it was opened with one limit and another. -/
structure RefinesResized (S : Serde) (m : SizedMap) (s : OpenCache) : Prop where
  limit : s.cache.maxSize = m.maxSize
  order : s.cache.evictionOrder = m.map.keys
  found : ∀ key, Cache.lookup S s key = .ok (m.map.get key.hashHex)
  counted : s.cache.currentSize = cacheBytes s.files
  bound : s.cache.currentSize ≤ m.allowed
  reopen : ∀ (walk : List Path) maxSize, walk.Perm s.files.names.toList →
    perform (DiskCache.new maxSize walk) s.files = (.ok (s.cache.resize maxSize), s.files)

/-- Over every run of operations and reopenings with any limits the cache is the map of the run, and
no larger than the limits since its last accepted put. -/
theorem refinesResized_of_run (hS : S.NonEmpty) (hround : S.RoundTrip) {maxSize now : Nat}
    {ops : List ResizeOp} (hrun : Run (ResizeStep S) (OpenCache.fresh maxSize now) ops s) :
    RefinesResized S (sizedMapOf S maxSize ops) s := by
  have h := Sized.of_run hS hrun
  refine ⟨h.limit, h.holding.order, h.holding.lookup hround, ?_, ?_, ?_⟩
  · rcases h.holding with ⟨limit, -, hrep⟩
    exact hrep.balanced.size
  · rw [h.holding.size]
    exact h.bound
  · intro walk limit hwalk
    exact h.holding.new hwalk limit

/-- An entry is put, and the cache opened again with a limit of one byte. -/
theorem exists_run_resized :
    ∃ s, Run (ResizeStep exampleSerde) (OpenCache.fresh 1024 0)
        [.op (.put exampleKey shortEntry), .reopen 1] s ∧
      s.cache.maxSize < s.cache.currentSize := by
  have hlen := length_exampleText_short
  have hdata : shortEntry.data.length = 2 := rfl
  have hfits : fits exampleSerde 1024 shortEntry = true :=
    fits_eq_true.2 ⟨_, exampleSerde_short, by omega⟩
  have hfresh := (Represents.fresh exampleSerde 1024 0).setClock 1
  have hold : OlderThan 1 (FileStore.empty 1) ([] : Fifo Str CacheEntry) := by
    intro hashHex hmem
    cases hmem
  rcases hfresh.put exampleSerde_nonEmpty exampleKey hfits hold with ⟨s, hput, hs⟩
  have hstep : CacheStep exampleSerde (OpenCache.fresh 1024 0)
      (.op (.put exampleKey shortEntry)) s := by
    refine @CacheStep.op _ _ _ _ 1 ?_ ?_
    · rintro key entry - - hashHex ⟨key', -, hfile⟩
      cases hfile
    · have hput' : Prog.exec FileOp.apply
          (DiskCache.put exampleSerde exampleKey shortEntry (OpenCache.fresh 1024 0).cache)
          ((OpenCache.fresh 1024 0).files.setClock 1) = ((.ok (), s.cache), s.files) := hput
      rw [DiskOp.run, perform, Prog.exec_bind, hput']
      rfl
  have hreopen : ResizeStep exampleSerde s (.reopen 1) (s.resize 1) :=
    .reopen (List.Perm.refl _) (hs.holding.new (List.Perm.refl _) 1)
  refine ⟨s.resize 1, .cons (.op hstep) (.cons hreopen (.nil _)), ?_⟩
  have hsize : s.cache.currentSize = diskSize exampleSerde shortEntry := by
    rw [hs.size]
    simp [Fifo.insert, Fifo.evict, Fifo.erase]
  rw [diskSize_of_toVec exampleSerde_short] at hsize
  show 1 < s.cache.currentSize
  omega

theorem refinesResized_of_run_smaller :
    ∃ s, s.cache.maxSize < s.cache.currentSize ∧
      RefinesResized exampleSerde
        (sizedMapOf exampleSerde 1024 [.op (.put exampleKey shortEntry), .reopen 1]) s := by
  rcases exists_run_resized with ⟨s, hrun, hover⟩
  exact ⟨s, hover, refinesResized_of_run exampleSerde_nonEmpty exampleSerde_roundTrip hrun⟩

end Cache
end Squiddish
