import Squiddish.Cache.Refinement

/-!
# Restarts — the disk cache as a first-in first-out map, across restarts

A cache is opened on an empty directory and used one operation after another; it may be dropped
and opened again on the directory it has left.  No file-system step fails, and every metadata
file is written at a later time than those before it.
-/

namespace Squiddish
namespace Cache

open Lib

/-! ## Runs -/

/-- An operation, or the cache is dropped and opened again. -/
inductive CacheOp
  | op (o : DiskOp)
  | restart
  deriving DecidableEq, Repr

/-- Every metadata file in the directory was written before this time. -/
def MetaBefore (now : Nat) (s : FileStore Path) : Prop :=
  ∀ hashHex, Stored s hashHex → metaTime s hashHex < now

inductive CacheStep (S : Serde) : OpenCache → CacheOp → OpenCache → Prop
  | op {s t : OpenCache} {o : DiskOp} {now : Nat} :
      (∀ key entry, o = .put key entry → fits S s.cache.maxSize entry = true →
        MetaBefore now s.files) →
      perform (o.run S s.cache) (s.files.setClock now) = (t.cache, t.files) →
      CacheStep S s (.op o) t
  | restart {s t : OpenCache} {walk : List Path} :
      walk.Perm s.files.names.toList →
      perform (DiskCache.new s.cache.maxSize walk) s.files = (.ok t.cache, t.files) →
      CacheStep S s .restart t

/-- The cache after it was opened on an empty directory. -/
def OpenCache.fresh (maxSize now : Nat) : OpenCache where
  files := FileStore.empty now
  cache := { maxSize := maxSize, currentSize := 0, evictionOrder := [] }

/-- The operations keep the keys apart by their hashes. -/
def DiskOp.key : DiskOp → CacheKey
  | .put key _ => key
  | .get key => key
  | .remove key => key

/-- The entry of the last put of the key that was not rejected as too large. -/
def lastAccepted (S : Serde) (maxSize : Nat) (key : CacheKey) (ops : List CacheOp) :
    Option CacheEntry :=
  ops.foldl
    (fun last o =>
      match o with
      | .op (.put key' entry) =>
          if key'.hash = key.hash ∧ fits S maxSize entry = true then some entry else last
      | _ => last)
    none

/-! ## The map of a run -/

def DiskOp.fifo (S : Serde) (maxSize : Nat) : DiskOp → Option (Fifo.Op Str CacheEntry)
  | .put key entry =>
      if fits S maxSize entry then some (.insert key.hashHex entry) else none
  | .get _ => none
  | .remove key => some (.erase key.hashHex)

def CacheOp.fifo (S : Serde) (maxSize : Nat) : CacheOp → Option (Fifo.Op Str CacheEntry)
  | .op o => o.fifo S maxSize
  | .restart => none

/-- The map that the operations of a run build. -/
def fifoOf (S : Serde) (maxSize : Nat) (ops : List CacheOp) : Fifo Str CacheEntry :=
  Fifo.run (diskSize S) maxSize (ops.filterMap (CacheOp.fifo S maxSize))

theorem fifoOf_concat (S : Serde) (maxSize : Nat) (ops : List CacheOp) (o : CacheOp) :
    fifoOf S maxSize (ops ++ [o]) =
      (o.fifo S maxSize).elim (fifoOf S maxSize ops)
        (fun op => op.apply (diskSize S) maxSize (fifoOf S maxSize ops)) := by
  cases ho : o.fifo S maxSize with
  | none =>
      simp [fifoOf, ho]
  | some op =>
      simp [fifoOf, ho, Fifo.run_concat]

/-- What the map was given last is what was accepted last. -/
theorem lastInsert_fifo (S : Serde) (maxSize : Nat) (key : CacheKey) (ops : List CacheOp) :
    Fifo.lastInsert key.hashHex (ops.filterMap (CacheOp.fifo S maxSize)) =
      lastAccepted S maxSize key ops := by
  have hhash : ∀ key' : CacheKey, key'.hashHex = key.hashHex ↔ key'.hash = key.hash := by
    intro key'
    exact ⟨CacheKey.hash_of_hashHex, fun h => by rw [CacheKey.hashHex, h, ← CacheKey.hashHex]⟩
  induction ops using List.reverseRecOn with
  | nil =>
      rfl
  | append_singleton ops o ih =>
      rw [lastAccepted, List.foldl_append, ← lastAccepted, ← ih, List.filterMap_append]
      cases o with
      | op o =>
          cases o with
          | put key' entry =>
              by_cases hfits : fits S maxSize entry = true
              · simp [CacheOp.fifo, DiskOp.fifo, Fifo.lastInsert, hfits, hhash]
              · simp [CacheOp.fifo, DiskOp.fifo, hfits]
          | get key' =>
              have hnone : CacheOp.fifo S maxSize (.op (.get key')) = none := rfl
              simp [hnone]
          | remove key' =>
              simp [CacheOp.fifo, DiskOp.fifo, Fifo.lastInsert]
      | restart =>
          have hnone : CacheOp.fifo S maxSize .restart = none := rfl
          simp [hnone]

section Steps

variable {S : Serde} {maxSize : Nat} {m : Fifo Str CacheEntry} {s t : OpenCache}

theorem OpenCache.eq_of_pair (h : (s.cache, s.files) = (t.cache, t.files)) : s = t := by
  rcases s
  rcases t
  simpa [and_comm] using h

namespace Represents

theorem fresh (S : Serde) (maxSize now : Nat) :
    Represents S maxSize [] (OpenCache.fresh maxSize now) where
  holds := HoldsMap.empty now
  limit := rfl
  order := rfl
  size := rfl
  bound := Nat.zero_le _

theorem setClock (h : Represents S maxSize m s) (now : Nat) :
    Represents S maxSize m { s with files := s.files.setClock now } where
  holds := h.holds.setClock now
  limit := h.limit
  order := h.order
  size := h.size
  bound := h.bound

theorem olderThan (h : Represents S maxSize m s) {now : Nat} (hnow : MetaBefore now s.files) :
    OlderThan now s.files m :=
  fun hashHex hmem => hnow hashHex ((h.holds.tracked.stored hashHex).1 hmem)

/-- An operation does to the map what it does to the cache. -/
theorem diskOp (h : Represents S maxSize m s) (hS : S.NonEmpty) {o : DiskOp} {now : Nat}
    (hnow : ∀ key entry, o = .put key entry → fits S s.cache.maxSize entry = true →
      MetaBefore now s.files)
    (hexec : perform (o.run S s.cache) (s.files.setClock now) = (t.cache, t.files)) :
    Represents S maxSize
      ((o.fifo S maxSize).elim m (fun op => op.apply (diskSize S) maxSize m)) t := by
  have hclock := h.setClock now
  cases o with
  | put key entry =>
      -- an entry that does not fit changes neither the cache nor the map
      by_cases hfits : fits S maxSize entry = true
      · have hold := h.olderThan (hnow key entry rfl (by rwa [h.limit]))
        rcases hclock.put hS key hfits hold with ⟨v, hput, hv⟩
        have hvt : v = t := OpenCache.eq_of_pair (by simpa [DiskOp.run, hput] using hexec)
        simpa [DiskOp.fifo, hfits, Fifo.Op.apply, hvt] using hv
      · have hnot : fits S s.cache.maxSize entry = false := by
          rw [h.limit]
          simpa using hfits
        rcases perform_put_of_not_fits hnot key (s.files.setClock now) with ⟨r, hput⟩
        have hst : { s with files := s.files.setClock now } = t :=
          OpenCache.eq_of_pair (by simpa [DiskOp.run, hput] using hexec)
        simpa [DiskOp.fifo, hfits, hst] using hclock
  | get key =>
      have hst : { s with files := s.files.setClock now } = t :=
        OpenCache.eq_of_pair (by simpa [DiskOp.run, perform_get_store] using hexec)
      simpa [DiskOp.fifo, hst] using hclock
  | remove key =>
      rcases hclock.remove key with ⟨v, hremove, hv⟩
      have heq : (v.cache, v.files) = (t.cache, t.files) := by
        rw [DiskOp.run, perform, Prog.exec_bind] at hexec
        exact (congrArg (fun r => (r.1.2, r.2)) hremove).symm.trans hexec
      have hvt : v = t := OpenCache.eq_of_pair heq
      simpa [DiskOp.fifo, Fifo.Op.apply, hvt] using hv

theorem step (h : Represents S maxSize m s) (hS : S.NonEmpty) {o : CacheOp}
    (hstep : CacheStep S s o t) :
    Represents S maxSize
      ((o.fifo S maxSize).elim m (fun op => op.apply (diskSize S) maxSize m)) t := by
  cases hstep with
  | op hnow hexec =>
      exact h.diskOp hS hnow hexec
  | restart hwalk hexec =>
      -- opening the cache again finds it as it was
      rw [h.limit, h.new hwalk] at hexec
      have hst : s = t := OpenCache.eq_of_pair (by simpa using hexec)
      exact hst ▸ h

theorem of_run (hS : S.NonEmpty) {now : Nat} {ops : List CacheOp}
    (hrun : Run (CacheStep S) (OpenCache.fresh maxSize now) ops t) :
    Represents S maxSize (fifoOf S maxSize ops) t := by
  have hstep : ∀ (as : List CacheOp) s o t, Represents S maxSize (fifoOf S maxSize as) s →
      CacheStep S s o t → Represents S maxSize (fifoOf S maxSize (as ++ [o])) t := by
    intro as s o t h hst
    rw [fifoOf_concat]
    exact h.step hS hst
  simpa using hrun.history (I := fun ops s => Represents S maxSize (fifoOf S maxSize ops) s)
    (b := []) hstep (fresh S maxSize now)

end Represents

/-! ## What a caller sees -/

/-- What `get` returns. -/
def lookup (S : Serde) (s : OpenCache) (key : CacheKey) : Outcome (Option CacheEntry) :=
  (perform (DiskCache.get S key) s.files).1

theorem Represents.lookup (h : Represents S maxSize m s) (hS : S.RoundTrip) (key : CacheKey) :
    lookup S s key = .ok (m.get key.hashHex) :=
  h.holds.get hS key

/-- The key was forgotten from the front of the order to make room for another. -/
def ForgottenFor (key key' : CacheKey) (s t : OpenCache) : Prop :=
  ∃ front rest, s.cache.evictionOrder = front ++ rest ∧ key'.hashHex ∈ front ∧
    t.cache.evictionOrder = rest.filter (fun hex => hex ≠ key.hashHex) ++ [key.hashHex]

/-- An operation on a key leaves the entry of another key, unless it puts and forgets it. -/
theorem Represents.frame (h : Represents S maxSize m s) (hS : S.NonEmpty) (hround : S.RoundTrip)
    {o : DiskOp} (hstep : CacheStep S s (.op o) t) {key' : CacheKey}
    (hne : key'.hash ≠ o.key.hash) :
    Cache.lookup S t key' = Cache.lookup S s key' ∨
      ((∃ entry, o = .put o.key entry) ∧ Cache.lookup S t key' = .ok none ∧
        ForgottenFor o.key key' s t) := by
  have ht := h.step hS hstep
  have hhex : key'.hashHex ≠ o.key.hashHex := fun heq => hne (CacheKey.hash_of_hashHex heq)
  rw [h.lookup hround key', ht.lookup hround key']
  cases o with
  | put key entry =>
      have hkey : key'.hashHex ≠ key.hashHex := hhex
      by_cases hfits : fits S maxSize entry = true
      · have hmap : (CacheOp.fifo S maxSize (.op (.put key entry))).elim m
            (fun op => op.apply (diskSize S) maxSize m) =
            m.insert (diskSize S) maxSize key.hashHex entry := by
          simp [CacheOp.fifo, DiskOp.fifo, hfits, Fifo.Op.apply]
        rw [hmap] at ht ⊢
        rcases Fifo.get_insert_of_ne (diskSize S) maxSize entry hkey h.holds.tracked.nodup with
          hsame | ⟨front, rest, hm, hfront, hinsert, hnone⟩
        · exact .inl (congrArg _ hsame)
        -- the other key stood in the front of the order that was evicted
        · refine .inr ⟨⟨entry, rfl⟩, congrArg _ hnone, Fifo.keys front, Fifo.keys rest, ?_,
            hfront, ?_⟩
          · rw [h.order, hm]
            exact List.map_append
          · calc
              t.cache.evictionOrder = Fifo.keys (m.insert (diskSize S) maxSize key.hashHex entry) :=
                    ht.order
              _ = Fifo.keys (Fifo.erase key.hashHex rest) ++ [key.hashHex] := by
                    rw [hinsert, Fifo.keys, List.map_append]
                    rfl
              _ = (Fifo.keys rest).filter (fun hex => hex ≠ key.hashHex) ++ [key.hashHex] := by
                    rw [Fifo.keys_erase]
      · left
        simp [CacheOp.fifo, DiskOp.fifo, hfits]
  | get key =>
      exact .inl rfl
  | remove key =>
      have hkey : key'.hashHex ≠ key.hashHex := hhex
      left
      exact congrArg _ (Fifo.get_erase_of_ne hkey)

/-- The cache at the end of a run is a first-in first-out map of bounded size. -/
structure RefinesFifo (S : Serde) (maxSize : Nat) (ops : List CacheOp) (s : OpenCache) :
    Prop where
  order : s.cache.evictionOrder = (fifoOf S maxSize ops).keys
  size : s.cache.currentSize = (fifoOf S maxSize ops).total (diskSize S)
  bound : s.cache.currentSize ≤ maxSize
  found : ∀ key, ∃ found, Cache.lookup S s key = .ok found ∧
    found = (fifoOf S maxSize ops).get key.hashHex ∧
    (found.isSome = true ↔ key.hashHex ∈ s.cache.evictionOrder) ∧
    ∀ entry, found = some entry → lastAccepted S maxSize key ops = some entry
  frame : ∀ o t, CacheStep S s (.op o) t → ∀ key', key'.hash ≠ o.key.hash →
    Cache.lookup S t key' = Cache.lookup S s key' ∨
      ((∃ entry, o = .put o.key entry) ∧ Cache.lookup S t key' = .ok none ∧
        ForgottenFor o.key key' s t)
  restart : ∀ walk : List Path, walk.Perm s.files.names.toList →
    perform (DiskCache.new maxSize walk) s.files = (.ok s.cache, s.files)

/-- Over every run of operations and restarts the cache refines the map. -/
theorem refinesFifo_of_run (hS : S.NonEmpty) (hround : S.RoundTrip) {now : Nat}
    {ops : List CacheOp} (hrun : Run (CacheStep S) (OpenCache.fresh maxSize now) ops s) :
    RefinesFifo S maxSize ops s := by
  have h := Represents.of_run hS hrun
  refine ⟨h.order, h.size, ?_, ?_, ?_, fun walk hwalk => h.new hwalk⟩
  · rw [h.size]
    exact h.bound
  · intro key
    refine ⟨_, h.lookup hround key, rfl, ?_, ?_⟩
    · rw [h.order, Option.isSome_iff_ne_none, Ne, Fifo.get_eq_none, not_not]
    · intro entry hentry
      rw [← lastInsert_fifo]
      exact Fifo.lastInsert_of_get_run hentry
  · intro o t hstep key' hne
    exact h.frame hS hround hstep hne

end Steps

/-- A cache in which an entry was put, opened again. -/
theorem refinesFifo_of_run_reopened :
    ∃ s, RefinesFifo exampleSerde 1024 [.op (.put exampleKey shortEntry), .restart] s := by
  have hfits : fits exampleSerde 1024 shortEntry = true := by
    have hlen := length_exampleText_short
    have hdata : shortEntry.data.length = 2 := rfl
    exact fits_eq_true.2 ⟨_, exampleSerde_short, by omega⟩
  have hfresh := (Represents.fresh exampleSerde 1024 0).setClock 1
  have hold : OlderThan 1 (FileStore.empty 1) ([] : Fifo Str CacheEntry) := by
    intro hashHex hmem
    cases hmem
  rcases hfresh.put exampleSerde_nonEmpty exampleKey hfits hold with ⟨s, hput, hs⟩
  have hstep : CacheStep exampleSerde (OpenCache.fresh 1024 0)
      (.op (.put exampleKey shortEntry)) s := by
    refine @CacheStep.op _ _ _ _ 1 ?_ ?_
    · rintro key entry - - hashHex ⟨key', -, hfile⟩
      cases hfile
    · have hput' : Prog.exec FileOp.apply
          (DiskCache.put exampleSerde exampleKey shortEntry (OpenCache.fresh 1024 0).cache)
          ((OpenCache.fresh 1024 0).files.setClock 1) = ((.ok (), s.cache), s.files) := hput
      rw [DiskOp.run, perform, Prog.exec_bind, hput']
      rfl
  have hrestart : CacheStep exampleSerde s .restart s := by
    refine CacheStep.restart (List.Perm.refl _) ?_
    rw [hs.limit]
    exact hs.new (List.Perm.refl _)
  exact ⟨s, refinesFifo_of_run exampleSerde_nonEmpty exampleSerde_roundTrip
    (.cons hstep (.cons hrestart (.nil s)))⟩

end Cache
end Squiddish
