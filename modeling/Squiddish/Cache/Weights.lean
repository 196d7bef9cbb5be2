import Mathlib.Algebra.BigOperators.Group.Finset.Piecewise
import Mathlib.Algebra.Order.BigOperators.Group.Finset
import Squiddish.Cache.Generations

/-!
# Weights — how many bytes the memory tier holds

`cache/memory.rs` lets `moka` weigh every entry and hold as many as weigh no more than
`memory_size` together.  A weight has 32 bits and a size has 64, so an entry may be longer than it
weighs: `memoryBounded_iff` says for which `memory_size` that makes a difference.
-/

namespace Squiddish
namespace Cache

/-- `u32::MAX`. -/
def maxWeight : Nat := 2 ^ 32 - 1

/-- The weigher: the size as a `u32`, or the largest one. -/
def weigh (entry : CacheEntry) : Nat :=
  if entry.size < 2 ^ 32 then entry.size else maxWeight

theorem weigh_eq_size {entry : CacheEntry} (h : entry.size ≤ maxWeight) :
    weigh entry = entry.size :=
  if_pos (Nat.lt_of_le_pred (by decide) h)

theorem weigh_of_lt {entry : CacheEntry} (h : maxWeight < entry.size) : weigh entry = maxWeight :=
  if_neg (Nat.not_lt.2 h)

/-- An entry lighter than the largest weight is as long as it weighs. -/
theorem size_of_weigh_lt {entry : CacheEntry} (h : weigh entry < maxWeight) :
    entry.size = weigh entry := by
  rcases Nat.lt_or_ge maxWeight entry.size with hlarge | hsmall
  · rw [weigh_of_lt hlarge] at h
    exact absurd h (Nat.lt_irrefl _)
  · exact (weigh_eq_size hsmall).symm

/-! ## What the tier holds -/

/-- A measure of the entries held under some keys, added up. -/
def heldSum (measure : CacheEntry → Nat) (memory : CacheKey → Option CacheEntry)
    (keys : Finset CacheKey) : Nat :=
  ∑ key ∈ keys, ((memory key).map measure).getD 0

/-- `moka` keeps to its capacity: whatever entries it holds weigh no more together. -/
def KeepsCapacity (memorySize : Nat) (memory : CacheKey → Option CacheEntry) : Prop :=
  ∀ keys, heldSum weigh memory keys ≤ memorySize

/-- The entries that are held are no longer than configured. -/
def WithinSize (memorySize : Nat) (memory : CacheKey → Option CacheEntry) : Prop :=
  ∀ keys, heldSum CacheEntry.size memory keys ≤ memorySize

section Held

variable {memorySize : Nat} {memory : CacheKey → Option CacheEntry}

theorem heldSum_singleton (measure : CacheEntry → Nat) {key : CacheKey} {entry : CacheEntry}
    (h : memory key = some entry) : heldSum measure memory {key} = measure entry := by
  simp [heldSum, h]

/-- Each entry alone is within the capacity. -/
theorem KeepsCapacity.weigh_le (h : KeepsCapacity memorySize memory) {key : CacheKey}
    {entry : CacheEntry} (hkey : memory key = some entry) : weigh entry ≤ memorySize := by
  have hone := h {key}
  rwa [heldSum_singleton weigh hkey] at hone

/-- Entries that weigh what they are long are within the limit. -/
theorem KeepsCapacity.withinSize (h : KeepsCapacity memorySize memory)
    (hsmall : ∀ key entry, memory key = some entry → entry.size ≤ maxWeight) :
    WithinSize memorySize memory := by
  intro keys
  have hsame : heldSum CacheEntry.size memory keys = heldSum weigh memory keys := by
    refine Finset.sum_congr rfl ?_
    intro key _
    cases hkey : memory key with
    | none =>
        rfl
    | some entry =>
        simp [weigh_eq_size (hsmall key entry hkey)]
  rw [hsame]
  exact h keys

end Held

/-! ## Large entries -/

/-- Keys that differ. -/
def numberedKey (i : Nat) : CacheKey :=
  { hash := .replicate 32 0, uri := List.replicate i '/' }

theorem numberedKey_injective : Function.Injective numberedKey := by
  intro i j h
  have hlen := congrArg (fun key : CacheKey => key.uri.length) h
  simpa [numberedKey] using hlen

def numberedKeys (n : Nat) : Finset CacheKey :=
  (Finset.range n).image numberedKey

theorem card_numberedKeys (n : Nat) : (numberedKeys n).card = n := by
  rw [numberedKeys, Finset.card_image_of_injective _ numberedKey_injective, Finset.card_range]

/-- The same entry under `n` keys. -/
def copies (entry : CacheEntry) (n : Nat) (key : CacheKey) : Option CacheEntry :=
  if key ∈ numberedKeys n then some entry else none

theorem heldSum_copies (measure : CacheEntry → Nat) (entry : CacheEntry) (n : Nat)
    (keys : Finset CacheKey) :
    heldSum measure (copies entry n) keys = (keys ∩ numberedKeys n).card * measure entry := by
  have hterm : ∀ key, ((copies entry n key).map measure).getD 0 =
      if key ∈ numberedKeys n then measure entry else 0 := by
    intro key
    by_cases hkey : key ∈ numberedKeys n <;> simp [copies, hkey]
  simp only [heldSum, hterm, Finset.sum_ite_mem]
  exact Finset.sum_const_nat (fun _ _ => rfl)

/-- As many copies as fit by their weight. -/
theorem keepsCapacity_copies {entry : CacheEntry} {n memorySize : Nat}
    (h : n * weigh entry ≤ memorySize) : KeepsCapacity memorySize (copies entry n) := by
  intro keys
  have hcard : (keys ∩ numberedKeys n).card ≤ n :=
    (Finset.card_le_card Finset.inter_subset_right).trans_eq (card_numberedKeys n)
  calc
    heldSum weigh (copies entry n) keys = (keys ∩ numberedKeys n).card * weigh entry :=
          heldSum_copies weigh entry n keys
    _ ≤ n * weigh entry := Nat.mul_le_mul_right _ hcard
    _ ≤ memorySize := h

theorem heldSum_size_copies (entry : CacheEntry) (n : Nat) :
    heldSum CacheEntry.size (copies entry n) (numberedKeys n) = n * entry.size := by
  rw [heldSum_copies, Finset.inter_self, card_numberedKeys]

/-- A body of 8 GiB, which is less than a response may have. -/
def largeEntry : CacheEntry :=
  zeroEntry (2 ^ 33) (by decide)

theorem size_largeEntry : largeEntry.size = 2 ^ 33 + 64 :=
  size_zeroEntry _ _

theorem weigh_largeEntry : weigh largeEntry = maxWeight := by
  refine weigh_of_lt ?_
  rw [size_largeEntry]
  decide

/-! ## Which limits hold -/

/-- From the largest weight on, as many large entries as weigh no more than the limit are too
long. -/
theorem exists_not_withinSize {memorySize : Nat} (hlarge : maxWeight ≤ memorySize) :
    ∃ cache : TieredCache, KeepsCapacity memorySize cache.memory ∧
      ¬ WithinSize memorySize cache.memory := by
  let n := memorySize / maxWeight
  have hn : n * maxWeight ≤ memorySize := Nat.div_mul_le_self _ _
  have hlt : memorySize < (n + 1) * maxWeight := by
    rw [Nat.mul_comm]
    exact Nat.lt_mul_div_succ memorySize (by decide)
  have hpos : 1 ≤ n := Nat.div_pos hlarge (by decide)
  have hkeeps : KeepsCapacity memorySize (copies largeEntry n) :=
    keepsCapacity_copies (by rwa [weigh_largeEntry])
  let disk : DiskCache := { maxSize := 0, currentSize := 0, evictionOrder := [] }
  refine ⟨{ memory := copies largeEntry n, disk := disk }, hkeeps, ?_⟩
  intro hwithin
  have hsum := hwithin (numberedKeys n)
  rw [heldSum_size_copies, size_largeEntry] at hsum
  simp only [maxWeight] at hlt
  omega

/-- The memory tier holds no more bytes than configured, whatever entries it holds, exactly when no
entry of the largest weight is let in. -/
theorem memoryBounded_iff (memorySize : Nat) :
    (∀ cache : TieredCache, KeepsCapacity memorySize cache.memory →
      WithinSize memorySize cache.memory) ↔ memorySize < maxWeight := by
  constructor
  · intro h
    by_contra hlarge
    rcases exists_not_withinSize (Nat.not_lt.1 hlarge) with ⟨cache, hkeeps, hnot⟩
    exact hnot (h cache hkeeps)
  · intro hlimit cache hkeeps
    refine hkeeps.withinSize ?_
    intro key entry hkey
    have hweight := (hkeeps.weigh_le hkey).trans_lt hlimit
    rw [size_of_weigh_lt hweight]
    exact hweight.le

/-- With 4 GiB configured one such entry is held. -/
theorem not_withinSize_large :
    ¬ ∀ memorySize (cache : TieredCache), KeepsCapacity memorySize cache.memory →
      WithinSize memorySize cache.memory := by
  intro h
  have hlarge : maxWeight ≤ 2 ^ 32 := by
    decide
  rcases exists_not_withinSize hlarge with ⟨cache, hkeeps, hnot⟩
  exact hnot (h (2 ^ 32) cache hkeeps)

end Cache
end Squiddish
