import Squiddish.Cache.Refinement

/-!
# Evictions — what a put takes away from other keys

`evict_if_needed` runs before the old version of the key is removed, so it makes room beside a
version that is about to go.  `put_evictsLeast_iff` says when this costs no other key its entry.
-/

namespace Squiddish
namespace Cache

open Lib

/-! ## Sizes in the eviction order -/

/-- The bytes of the two files of this hash. -/
def entryBytes (s : FileStore Path) (hashHex : Str) : Nat :=
  s.size (entryPath hashHex metaExt) + s.size (entryPath hashHex dataExt)

theorem entryBytes_hashHex (s : FileStore Path) (key : CacheKey) :
    entryBytes s key.hashHex = s.size key.metaPath + s.size key.dataPath := by
  rw [entryBytes, ← CacheKey.metaPath_eq, ← CacheKey.dataPath_eq]

/-- The eviction order with the sizes of the entries. -/
def sized (s : FileStore Path) (order : List Str) : Fifo Str Nat :=
  order.map (fun hashHex => (hashHex, entryBytes s hashHex))

@[simp] theorem keys_sized (s : FileStore Path) (order : List Str) :
    (sized s order).keys = order := by
  simp [Fifo.keys, sized, Function.comp_def]

theorem total_sized (s : FileStore Path) (order : List Str) :
    (sized s order).total id = (order.map (entryBytes s)).sum := by
  simp [Fifo.total, sized, Function.comp_def]

/-- What is left of the order keeps its sizes. -/
theorem sized_of_suffix {s : FileStore Path} {order : List Str} {m : Fifo Str Nat}
    (h : m <:+ sized s order) : m = sized s m.keys := by
  obtain ⟨front, hfront⟩ := h
  have hmem : ∀ p ∈ m, p = (p.1, entryBytes s p.1) := by
    intro p hp
    have hp' : p ∈ sized s order := hfront ▸ List.mem_append_right _ hp
    obtain ⟨hashHex, -, rfl⟩ := List.mem_map.1 hp'
    rfl
  calc
    m = m.map id := (List.map_id m).symm
    _ = m.map (fun p => (p.1, entryBytes s p.1)) := List.map_congr_left hmem
    _ = sized s m.keys := by simp [sized, Fifo.keys, Function.comp_def]

theorem erase_sized (s : FileStore Path) (order : List Str) (hashHex : Str) :
    Fifo.erase hashHex (sized s order) =
      sized s (order.filter (fun hex => hex ≠ hashHex)) := by
  rw [Fifo.erase, sized, List.filter_map]
  rfl

/-- The part of the order behind this hash. -/
def orderBehind (hashHex : Str) (order : List Str) : List Str :=
  (order.dropWhile (fun hex => hex ≠ hashHex)).tail

theorem behind_sized (s : FileStore Path) (order : List Str) (hashHex : Str) :
    Fifo.behind hashHex (sized s order) = sized s (orderBehind hashHex order) := by
  induction order with
  | nil =>
      rfl
  | cons hex order ih =>
      by_cases heq : hex = hashHex
      · simp [sized, Fifo.behind, orderBehind, heq]
      · have hdrop : orderBehind hashHex (hex :: order) = orderBehind hashHex order := by
          simp [orderBehind, heq]
        rw [hdrop, ← ih]
        exact if_neg heq

/-- Two ends of a list without repetitions that have the same members are equal. -/
theorem eq_of_suffix_of_mem_iff {α : Type} {l a b : List α} (hl : l.Nodup) (ha : a <:+ l)
    (hb : b <:+ l) (hmem : ∀ x, x ∈ a ↔ x ∈ b) : a = b := by
  have hperm : a.Perm b :=
    (List.perm_ext_iff_of_nodup (hl.sublist ha.sublist) (hl.sublist hb.sublist)).2 hmem
  rcases List.suffix_or_suffix_of_suffix ha hb with hab | hba
  · exact hab.eq_of_length hperm.length_eq
  · exact (hba.eq_of_length hperm.length_eq.symm).symm

theorem sized_suffix_iff {s : FileStore Path} {order order' : List Str} :
    sized s order <:+ sized s order' ↔ order <:+ order' := by
  constructor
  · intro h
    have hkeys : (sized s order).keys <:+ (sized s order').keys := h.map Prod.fst
    simpa using hkeys
  · exact fun h => h.map _

section Listed

variable {s : FileStore Path} {order : List Str}

/-- Removing one entry leaves the sizes of the others. -/
theorem sized_dropFiles {key : CacheKey} (h : ∀ hashHex ∈ order, Stored s hashHex)
    (hnot : key.hashHex ∉ order) : sized (dropFiles key.filePath s) order = sized s order := by
  refine List.map_congr_left ?_
  intro hashHex hmem
  obtain ⟨key', rfl, -⟩ := h hashHex hmem
  have hne : key'.hashHex ≠ key.hashHex := fun heq => hnot (heq ▸ hmem)
  have hpair := size_of_pair (pair_dropFiles_of_ne hne s)
  rw [entryBytes_hashHex, entryBytes_hashHex, hpair.1, hpair.2]

/-- The counter is the sum of the sizes. -/
theorem Listed.total_sized (h : Listed s order) : (sized s order).total id = cacheBytes s := by
  induction order generalizing s with
  | nil =>
      exact h.cacheBytes_of_nil.symm
  | cons hashHex order ih =>
      obtain ⟨key, rfl, -⟩ := (h.stored hashHex).1 List.mem_cons_self
      have hnot := (List.nodup_cons.1 h.nodup).1
      have hstored : ∀ hex ∈ order, Stored s hex :=
        fun hex hhex => (h.stored hex).1 (List.mem_cons_of_mem _ hhex)
      calc
        (sized s (key.hashHex :: order)).total id =
            entryBytes s key.hashHex + (sized s order).total id := Fifo.total_cons _ _ _
        _ = entryBytes s key.hashHex + cacheBytes (Cache.dropFiles key.filePath s) := by
              rw [← ih h.dropFiles_head, sized_dropFiles hstored hnot]
        _ = cacheBytes s := by
              rw [entryBytes_hashHex, ← cacheBytes_dropFiles (s := s) key, Nat.add_comm]

/-- The other entries and the old version of the key are all there is. -/
theorem Listed.total_sized_others (h : Listed s order) (key : CacheKey) :
    (sized s (order.filter (fun hex => hex ≠ key.hashHex))).total id +
      entryBytes s key.hashHex = cacheBytes s := by
  have hdrop := (h.dropFiles key).total_sized
  have hnot : key.hashHex ∉ order.filter (fun hex => hex ≠ key.hashHex) := by
    simp
  have hstored : ∀ hex ∈ order.filter (fun hex => hex ≠ key.hashHex), Stored s hex :=
    fun hex hhex => (h.stored hex).1 (List.mem_filter.1 hhex).1
  rw [sized_dropFiles hstored hnot] at hdrop
  rw [hdrop, entryBytes_hashHex, cacheBytes_dropFiles]

theorem Listed.weightOf_sized (h : Listed s order) (key : CacheKey) :
    Fifo.weightOf id key.hashHex (sized s order) = entryBytes s key.hashHex := by
  have hsplit := Fifo.total_erase_add id key.hashHex (sized s order)
  rw [erase_sized, h.total_sized, ← h.total_sized_others key] at hsplit
  exact Nat.add_left_cancel hsplit

/-- The loop forgets what the sized order forgets. -/
theorem evictLoop_exact {currentSize : Nat} (targetSize freed : Nat) (h : Listed s order)
    (hsize : cacheBytes s + freed = currentSize) :
    ∃ freed' t, perform (evictLoop currentSize targetSize order freed) s =
        ((some freed', (Fifo.evict id targetSize (sized s order)).keys), t) ∧
      Listed t (Fifo.evict id targetSize (sized s order)).keys ∧
      cacheBytes t + freed' = currentSize := by
  induction order generalizing freed s with
  | nil =>
      exact ⟨freed, s, rfl, h, hsize⟩
  | cons hashHex order ih =>
      have htotal := h.total_sized
      -- the loop compares what is left of the counter, the map what is left of its weight
      have hdone : currentSize - freed ≤ targetSize ↔
          (sized s (hashHex :: order)).total id ≤ targetSize := by
        rw [htotal]
        omega
      by_cases hfits : (sized s (hashHex :: order)).total id ≤ targetSize
      · rw [Fifo.evict_of_le id hfits, keys_sized]
        refine ⟨freed, s, ?_, h, hsize⟩
        simp [evictLoop, hdone.2 hfits]
      · obtain ⟨key, rfl, -⟩ := (h.stored hashHex).1 List.mem_cons_self
        have hnot := (List.nodup_cons.1 h.nodup).1
        have hstored : ∀ hex ∈ order, Stored s hex :=
          fun hex hhex => (h.stored hex).1 (List.mem_cons_of_mem _ hhex)
        have hevict : Fifo.evict id targetSize (sized s (key.hashHex :: order)) =
            Fifo.evict id targetSize (sized s order) := if_neg hfits
        have hbytes := cacheBytes_dropFiles (s := s) key
        obtain ⟨freed', t, hexec, hlisted, hsize'⟩ :=
          ih (freed + (s.size key.metaPath + s.size key.dataPath)) h.dropFiles_head (by omega)
        rw [sized_dropFiles hstored hnot] at hexec hlisted
        refine ⟨freed', t, ?_, hevict ▸ hlisted, hsize'⟩
        have hpaths : withExtension key.filePath metaExt = key.metaPath ∧
            withExtension key.filePath dataExt = key.dataPath := ⟨rfl, rfl⟩
        have hnotDone := mt hdone.1 hfits
        rw [hevict]
        simpa [evictLoop, hnotDone, filePathFromHash_hashHex, hpaths] using hexec

theorem evictIfNeeded_exact {cache : DiskCache} (neededSize : Nat) (h : Counted s cache) :
    ∃ cache' t, perform (evictIfNeeded neededSize cache) s = ((.ok (), cache'), t) ∧
      Listed t cache'.evictionOrder ∧ cache'.evictionOrder =
        (Fifo.evict id (cache.maxSize - neededSize) (sized s cache.evictionOrder)).keys := by
  by_cases hfits : cache.currentSize + neededSize ≤ cache.maxSize
  · have hroom : (sized s cache.evictionOrder).total id ≤ cache.maxSize - neededSize := by
      rw [h.listed.total_sized, ← h.size]
      exact Nat.le_sub_of_add_le hfits
    refine ⟨cache, s, by simp [evictIfNeeded, hfits], h.listed, ?_⟩
    rw [Fifo.evict_of_le id hroom, keys_sized]
  · obtain ⟨freed, t, hexec, hlisted, -⟩ := evictLoop_exact (cache.maxSize - neededSize) 0 h.listed
      (by simpa using h.size.symm)
    refine ⟨{ cache with
              currentSize := cache.currentSize - freed
              evictionOrder := (Fifo.evict id (cache.maxSize - neededSize)
                (sized s cache.evictionOrder)).keys }, t, ?_, hlisted, rfl⟩
    simp [evictIfNeeded, hfits, hexec]

end Listed

/-! ## What a put has to take away -/

section Put

variable (S : Serde) (s : FileStore Path) (cache : DiskCache) (key : CacheKey) (entry : CacheEntry)

/-- The entries of other keys, oldest first. -/
def otherEntries : List Str :=
  cache.evictionOrder.filter (fun hex => hex ≠ key.hashHex)

/-- These entries of other keys fit together with the new entry. -/
def FitBeside (kept : List Str) : Prop :=
  (kept.map (entryBytes s)).sum + diskSize S entry ≤ cache.maxSize

/-- The shortest front part of the other entries without which the rest fits beside the new one. -/
structure LeastEviction (forgotten kept : List Str) : Prop where
  split : forgotten ++ kept = otherEntries cache key
  fits : FitBeside S s cache entry kept
  least : ∀ forgotten' kept', forgotten' ++ kept' = otherEntries cache key →
    FitBeside S s cache entry kept' → forgotten.length ≤ forgotten'.length

/-- The put takes exactly these entries away from other keys. -/
def EvictsLeast : Prop :=
  ∃ forgotten kept, LeastEviction S s cache key entry forgotten kept ∧
    ∀ hashHex, hashHex ≠ key.hashHex →
      (Stored s hashHex ∧ ¬ Stored (perform (DiskCache.put S key entry cache) s).2 hashHex ↔
        hashHex ∈ forgotten)

/-- The entries that can stay fit even beside the old version of the key, or were all written after
it, so that it is forgotten before any of them. -/
def RoomBesideOld : Prop :=
  ∀ forgotten kept, LeastEviction S s cache key entry forgotten kept →
    FitBeside S s cache entry (key.hashHex :: kept) ∨
      kept <:+ orderBehind key.hashHex cache.evictionOrder

end Put

section Exact

variable {S : Serde} {s : FileStore Path} {cache : DiskCache} {key : CacheKey} {entry : CacheEntry}

theorem fitBeside_iff (hsize : diskSize S entry ≤ cache.maxSize) {kept : List Str} :
    FitBeside S s cache entry kept ↔
      (sized s kept).total id ≤ cache.maxSize - diskSize S entry := by
  rw [FitBeside, total_sized]
  exact (Nat.le_sub_iff_add_le hsize).symm

variable (S s cache key entry) in
/-- What the sized order without the key keeps when room is made for the new entry. -/
def canStay : List Str :=
  (Fifo.evict id (cache.maxSize - diskSize S entry) (sized s (otherEntries cache key))).keys

theorem sized_canStay : sized s (canStay S s cache key entry) =
    Fifo.evict id (cache.maxSize - diskSize S entry) (sized s (otherEntries cache key)) :=
  (sized_of_suffix (Fifo.evict_isSuffix id _ _)).symm

theorem canStay_suffix : canStay S s cache key entry <:+ otherEntries cache key := by
  rw [← sized_suffix_iff (s := s), sized_canStay]
  exact Fifo.evict_isSuffix id _ _

/-- It is the longest end of the order that fits beside the new entry. -/
theorem leastEviction_iff (hsize : diskSize S entry ≤ cache.maxSize) {forgotten kept : List Str} :
    LeastEviction S s cache key entry forgotten kept ↔
      forgotten ++ kept = otherEntries cache key ∧ kept = canStay S s cache key entry := by
  have hfit : FitBeside S s cache entry (canStay S s cache key entry) := by
    rw [fitBeside_iff hsize, sized_canStay]
    exact Fifo.total_evict_le _ _ _
  have hlongest : ∀ forgotten' kept', forgotten' ++ kept' = otherEntries cache key →
      FitBeside S s cache entry kept' → kept' <:+ canStay S s cache key entry := by
    intro forgotten' kept' hsplit hfit'
    rw [← sized_suffix_iff (s := s), sized_canStay]
    exact Fifo.suffix_evict id (sized_suffix_iff.2 ⟨forgotten', hsplit⟩)
      ((fitBeside_iff hsize).1 hfit')
  constructor
  -- what can stay fits, so no more is lost than with it
  · intro h
    refine ⟨h.split, (hlongest _ _ h.split h.fits).eq_of_length_le ?_⟩
    obtain ⟨forgotten', hsplit⟩ : canStay S s cache key entry <:+ otherEntries cache key :=
      canStay_suffix
    have hleast := h.least _ _ hsplit hfit
    have hlength := congrArg List.length (h.split.trans hsplit.symm)
    rw [List.length_append, List.length_append] at hlength
    omega
  · rintro ⟨hsplit, rfl⟩
    refine ⟨hsplit, hfit, ?_⟩
    intro forgotten' kept' hsplit' hfit'
    have hle := (hlongest _ _ hsplit' hfit').length_le
    have hlength := congrArg List.length (hsplit.trans hsplit'.symm)
    rw [List.length_append, List.length_append] at hlength
    omega

/-- The other keys lose exactly the first part of the order if the order with the old version loses
the same of them as the order without. -/
theorem takesAway_iff {forgotten kept : List Str} (h : Listed s cache.evictionOrder)
    (hsplit : forgotten ++ kept = otherEntries cache key) {left : Fifo Str Nat}
    (hleft : left <:+ sized s cache.evictionOrder) :
    (∀ hashHex, hashHex ≠ key.hashHex →
        (Stored s hashHex ∧ ¬ hashHex ∈ left.keys ↔ hashHex ∈ forgotten)) ↔
      Fifo.erase key.hashHex left = sized s kept := by
  have hnodup : (otherEntries cache key).Nodup := h.nodup.filter _
  have hmem : ∀ hashHex, hashHex ≠ key.hashHex →
      (Stored s hashHex ↔ hashHex ∈ forgotten ∨ hashHex ∈ kept) := by
    intro hashHex hne
    rw [← List.mem_append, hsplit, otherEntries, List.mem_filter, h.stored]
    simp [hne]
  have hdisjoint : ∀ hashHex, hashHex ∈ forgotten → hashHex ∉ kept := by
    rw [← hsplit] at hnodup
    exact fun hashHex hf hk => List.disjoint_of_nodup_append hnodup hf hk
  have hkept : kept <:+ otherEntries cache key := ⟨forgotten, hsplit⟩
  have herase : Fifo.erase key.hashHex left <:+ sized s (otherEntries cache key) := by
    rw [otherEntries, ← erase_sized]
    exact hleft.filter _
  have hkeys : ∀ hashHex, hashHex ≠ key.hashHex →
      (hashHex ∈ left.keys ↔ hashHex ∈ (Fifo.erase key.hashHex left).keys) := by
    intro hashHex hne
    rw [Fifo.keys_erase, List.mem_filter]
    simp [hne]
  constructor
  · intro hlost
    -- two ends of the order with the same members are one
    have hsuffix : (Fifo.erase key.hashHex left).keys <:+ otherEntries cache key := by
      rwa [sized_of_suffix herase, sized_suffix_iff] at herase
    rw [sized_of_suffix herase]
    refine congrArg (sized s) (eq_of_suffix_of_mem_iff hnodup hsuffix hkept ?_)
    intro hashHex
    by_cases hne : hashHex = key.hashHex
    · refine iff_of_false (fun hmem => ?_) (fun hmem => ?_)
      · simpa [otherEntries, hne] using hsuffix.subset hmem
      · simpa [otherEntries, hne] using hkept.subset hmem
    · have hlost' := hlost hashHex hne
      rw [hmem hashHex hne, hkeys hashHex hne] at hlost'
      constructor
      · intro hin
        have hall : hashHex ∈ forgotten ++ kept := hsplit ▸ hsuffix.subset hin
        rcases List.mem_append.1 hall with hf | hk
        · exact absurd hin (hlost'.2 hf).2
        · exact hk
      · intro hk
        by_contra hout
        exact hdisjoint hashHex (hlost'.1 ⟨Or.inr hk, hout⟩) hk
  · intro heq hashHex hne
    have hleft' : hashHex ∈ left.keys ↔ hashHex ∈ kept := by
      rw [hkeys hashHex hne, heq, keys_sized]
    rw [hmem hashHex hne, hleft']
    constructor
    · rintro ⟨hf | hk, hnot⟩
      · exact hf
      · exact absurd hk hnot
    · intro hf
      exact ⟨Or.inl hf, hdisjoint hashHex hf⟩

theorem put_exact (h : Counted s cache) (hfits : fits S cache.maxSize entry = true)
    {hashHex : Str} (hne : hashHex ≠ key.hashHex) :
    Stored (perform (DiskCache.put S key entry cache) s).2 hashHex ↔
      hashHex ∈ (Fifo.evict id (cache.maxSize - diskSize S entry)
        (sized s cache.evictionOrder)).keys := by
  obtain ⟨metaJson, hjson, hle⟩ := fits_eq_true.1 hfits
  obtain ⟨cache', t, hexec, hlisted, horder⟩ :=
    evictIfNeeded_exact (metaJson.length + entry.data.length) h
  rw [put_of_fits hjson hle, diskSize_of_toVec hjson, ← horder, hlisted.stored]
  -- the files of the key itself are replaced afterwards
  simp [hexec, stored_saveEntry, stored_dropFiles, hne]

theorem diskSize_le_of_fits (h : fits S cache.maxSize entry = true) :
    diskSize S entry ≤ cache.maxSize := by
  obtain ⟨metaJson, hjson, hle⟩ := fits_eq_true.1 h
  rwa [diskSize_of_toVec hjson]

theorem evictsLeast_iff_erase (h : Counted s cache)
    (hfits : fits S cache.maxSize entry = true) :
    EvictsLeast S s cache key entry ↔
      Fifo.erase key.hashHex
          (Fifo.evict id (cache.maxSize - diskSize S entry) (sized s cache.evictionOrder)) =
        sized s (canStay S s cache key entry) := by
  have hsize := diskSize_le_of_fits hfits
  have hleft := Fifo.evict_isSuffix id (cache.maxSize - diskSize S entry)
    (sized s cache.evictionOrder)
  constructor
  · rintro ⟨forgotten, kept, hleast, hlost⟩
    obtain ⟨hsplit, rfl⟩ := (leastEviction_iff hsize).1 hleast
    refine (takesAway_iff h.listed hsplit hleft).1 ?_
    intro hashHex hne
    rw [← hlost hashHex hne, put_exact h hfits hne]
  · intro heq
    obtain ⟨forgotten, hsplit⟩ : canStay S s cache key entry <:+ otherEntries cache key :=
      canStay_suffix
    refine ⟨forgotten, _, (leastEviction_iff hsize).2 ⟨hsplit, rfl⟩, ?_⟩
    intro hashHex hne
    rw [put_exact h hfits hne]
    exact (takesAway_iff h.listed hsplit hleft).2 heq hashHex hne

theorem roomBesideOld_iff (hsize : diskSize S entry ≤ cache.maxSize) :
    RoomBesideOld S s cache key entry ↔
      FitBeside S s cache entry (key.hashHex :: canStay S s cache key entry) ∨
        canStay S s cache key entry <:+ orderBehind key.hashHex cache.evictionOrder := by
  constructor
  · intro h
    obtain ⟨forgotten, hsplit⟩ : canStay S s cache key entry <:+ otherEntries cache key :=
      canStay_suffix
    exact h forgotten _ ((leastEviction_iff hsize).2 ⟨hsplit, rfl⟩)
  · intro h forgotten kept hleast
    obtain ⟨-, rfl⟩ := (leastEviction_iff hsize).1 hleast
    exact h

theorem evictsLeast_iff_room (h : Counted s cache) (hfits : fits S cache.maxSize entry = true) :
    EvictsLeast S s cache key entry ↔
      FitBeside S s cache entry (key.hashHex :: canStay S s cache key entry) ∨
        canStay S s cache key entry <:+ orderBehind key.hashHex cache.evictionOrder := by
  have hsize := diskSize_le_of_fits hfits
  have hnodup : (sized s cache.evictionOrder).keys.Nodup := by
    rw [keys_sized]
    exact h.listed.nodup
  have hothers : Fifo.erase key.hashHex (sized s cache.evictionOrder) =
      sized s (otherEntries cache key) := erase_sized _ _ _
  have hold : (sized s (key.hashHex :: canStay S s cache key entry)).total id =
      (sized s (canStay S s cache key entry)).total id + entryBytes s key.hashHex :=
    Nat.add_comm _ _
  rw [evictsLeast_iff_erase h hfits, fitBeside_iff hsize, hold, sized_canStay, ← hothers]
  refine (Fifo.erase_evict_iff id hnodup).trans ?_
  rw [h.listed.weightOf_sized, behind_sized, hothers, ← sized_canStay, sized_suffix_iff]

/-- A put takes no more away from other keys than it has to exactly when the old version of the key
is not in the way. -/
theorem put_evictsLeast_iff (h : Counted s cache) (hfits : fits S cache.maxSize entry = true) :
    EvictsLeast S s cache key entry ↔ RoomBesideOld S s cache key entry :=
  (evictsLeast_iff_room h hfits).trans (roomBesideOld_iff (diskSize_le_of_fits hfits)).symm

end Exact

/-! ## A full cache with two entries -/

section Full

variable {s : FileStore Path} {key key' : CacheKey} (metaJson data : Bytes)

theorem entryBytes_saveEntry_self : entryBytes (saveEntry key metaJson data s) key.hashHex =
    metaJson.length + data.length := by
  have hpair := pair_saveEntry_self key metaJson data s
  rw [entryBytes_hashHex, FileStore.size_of_file (congrArg Prod.fst hpair),
    FileStore.size_of_file (congrArg Prod.snd hpair)]

theorem entryBytes_saveEntry_of_ne (hne : key'.hashHex ≠ key.hashHex) :
    entryBytes (saveEntry key metaJson data s) key'.hashHex = entryBytes s key'.hashHex := by
  have hsize := size_of_pair (pair_saveEntry_of_ne hne metaJson data s)
  rw [entryBytes_hashHex, entryBytes_hashHex, hsize.1, hsize.2]

end Full

/-- The key of `GET http://example.com/other`, by its SHA-256 hash. -/
def otherKey : CacheKey where
  hash :=
    #v[210, 63, 77, 84, 19, 250, 225, 104, 235, 178, 146, 119, 140, 247, 79, 79,
      169, 214, 40, 132, 156, 87, 186, 182, 139, 160, 236, 227, 211, 246, 26, 226]
  uri := "http://example.com/other".toList

theorem hashHex_otherKey_ne : otherKey.hashHex ≠ exampleKey.hashHex := by
  decide +kernel

/-- The other entry, then that of the key. -/
def twoFiles : FileStore Path :=
  saveEntry exampleKey (exampleText shortEntry.metadata) shortEntry.data
    (saveEntry otherKey (exampleText shortEntry.metadata) shortEntry.data (FileStore.empty 0))

def twoEntries : DiskCache where
  maxSize := 240
  currentSize := 234
  evictionOrder := [otherKey.hashHex, exampleKey.hashHex]

theorem length_exampleText :
    (exampleText shortEntry.metadata).length = 115 ∧
      (exampleText longEntry.metadata).length = 117 := by
  decide +kernel

theorem entryBytes_twoFiles :
    entryBytes twoFiles otherKey.hashHex = 117 ∧ entryBytes twoFiles exampleKey.hashHex = 117 := by
  have hdata : shortEntry.data.length = 2 := rfl
  constructor
  · rw [twoFiles, entryBytes_saveEntry_of_ne _ _ hashHex_otherKey_ne, entryBytes_saveEntry_self,
      length_exampleText.1, hdata]
  · rw [twoFiles, entryBytes_saveEntry_self, length_exampleText.1, hdata]

theorem listed_twoFiles : Listed twoFiles [otherKey.hashHex, exampleKey.hashHex] := by
  have hempty : Listed (FileStore.empty 0) [] :=
    (HoldsMap.empty (S := exampleSerde) 0).tracked.listed
  have hother : Listed (saveEntry otherKey (exampleText shortEntry.metadata) shortEntry.data
      (FileStore.empty 0)) [otherKey.hashHex] :=
    hempty.saveEntry (exampleText_ne_nil _) _ List.not_mem_nil
  refine hother.saveEntry (exampleText_ne_nil _) _ ?_
  simpa using Ne.symm hashHex_otherKey_ne

theorem counted_twoEntries : Counted twoFiles twoEntries where
  listed := listed_twoFiles
  size := by
    rw [← listed_twoFiles.total_sized, total_sized]
    simp [twoEntries, entryBytes_twoFiles]

theorem fits_long_twoEntries : fits exampleSerde twoEntries.maxSize longEntry = true := by
  refine fits_eq_true.2 ⟨_, exampleSerde_long, ?_⟩
  rw [length_exampleText.2]
  decide

theorem put_evictsLeast_iff_twoEntries :
    EvictsLeast exampleSerde twoFiles twoEntries otherKey longEntry ↔
      RoomBesideOld exampleSerde twoFiles twoEntries otherKey longEntry :=
  put_evictsLeast_iff counted_twoEntries fits_long_twoEntries

/-- The new version of the second entry would fit beside the first one, which is evicted. -/
theorem not_evictsLeast_twoEntries :
    Counted twoFiles twoEntries ∧ fits exampleSerde twoEntries.maxSize longEntry = true ∧
      FitBeside exampleSerde twoFiles twoEntries longEntry (otherEntries twoEntries exampleKey) ∧
      ¬ EvictsLeast exampleSerde twoFiles twoEntries exampleKey longEntry := by
  have hothers : otherEntries twoEntries exampleKey = [otherKey.hashHex] := by
    simp [otherEntries, twoEntries, hashHex_otherKey_ne]
  have hlong : diskSize exampleSerde longEntry = 119 := by
    rw [diskSize_of_toVec exampleSerde_long, length_exampleText.2]
    rfl
  have hfit : FitBeside exampleSerde twoFiles twoEntries longEntry
      (otherEntries twoEntries exampleKey) := by
    rw [FitBeside, hothers, hlong]
    simp [entryBytes_twoFiles, twoEntries]
  refine ⟨counted_twoEntries, fits_long_twoEntries, hfit, ?_⟩
  have hstay : canStay exampleSerde twoFiles twoEntries exampleKey longEntry =
      [otherKey.hashHex] := by
    have hroom := (fitBeside_iff (diskSize_le_of_fits fits_long_twoEntries)).1 hfit
    rw [canStay, Fifo.evict_of_le id hroom, keys_sized, hothers]
  rw [evictsLeast_iff_room counted_twoEntries fits_long_twoEntries, hstay]
  rintro (hbeside | hbehind)
  -- the three versions are too much, and the first entry is older than the old version
  · rw [FitBeside, hlong] at hbeside
    simp [entryBytes_twoFiles, twoEntries] at hbeside
  · have hnil : orderBehind exampleKey.hashHex twoEntries.evictionOrder = [] := by
      simp [orderBehind, twoEntries, hashHex_otherKey_ne]
    rw [hnil] at hbehind
    simp at hbehind

end Cache
end Squiddish
