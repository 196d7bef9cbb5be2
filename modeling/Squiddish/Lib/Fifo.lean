import Mathlib.Algebra.GroupWithZero.Nat
import Mathlib.Data.List.Nodup
import Mathlib.Data.List.Induction

/-!
# Fifo — a map of bounded weight that forgets its oldest bindings

A list of bindings, those inserted first at the front.  Before a value is inserted the map forgets
bindings from the front until there is room for it.

* `get`, `erase`, `insert` : the operations;
* `evict_suffix` : only a front part is ever forgotten;
* `suffix_evict` : and no more of it than has to be;
* `erase_evict_iff` : when nothing is lost by making room before the old binding of a key is erased;
* `get_insert_of_ne` : what an insertion may do to the value of another key;
* `lastInsert_of_get_run` : a value that is found is the one inserted last.
-/

namespace Squiddish
namespace Lib

/-- Bindings, oldest first. -/
abbrev Fifo (K V : Type) := List (K × V)

namespace Fifo

variable {K V : Type}

def keys (m : Fifo K V) : List K :=
  m.map Prod.fst

section Weight

variable (weight : V → Nat)

def total (m : Fifo K V) : Nat :=
  (m.map (fun p => weight p.2)).sum

@[simp] theorem total_nil : total weight ([] : Fifo K V) = 0 := rfl

@[simp] theorem total_cons (p : K × V) (m : Fifo K V) :
    total weight (p :: m) = weight p.2 + total weight m := by
  simp [total]

@[simp] theorem total_append (m m' : Fifo K V) :
    total weight (m ++ m') = total weight m + total weight m' := by
  simp [total]

/-- Forget the oldest bindings until the rest is no heavier than `target`. -/
def evict (target : Nat) : Fifo K V → Fifo K V
  | [] => []
  | p :: m => if total weight (p :: m) ≤ target then p :: m else evict target m

theorem evict_suffix (target : Nat) (m : Fifo K V) :
    ∃ forgotten, m = forgotten ++ evict weight target m := by
  induction m with
  | nil =>
      exact ⟨[], rfl⟩
  | cons p m ih =>
      by_cases hfits : total weight (p :: m) ≤ target
      · exact ⟨[], by rw [evict, if_pos hfits, List.nil_append]⟩
      · rcases ih with ⟨forgotten, hm⟩
        refine ⟨p :: forgotten, ?_⟩
        rw [evict, if_neg hfits, List.cons_append, ← hm]

theorem evict_isSuffix (target : Nat) (m : Fifo K V) : evict weight target m <:+ m := by
  obtain ⟨forgotten, hm⟩ := evict_suffix weight target m
  exact ⟨forgotten, hm.symm⟩

theorem total_evict_le (target : Nat) (m : Fifo K V) :
    total weight (evict weight target m) ≤ target := by
  induction m with
  | nil =>
      exact Nat.zero_le _
  | cons p m ih =>
      by_cases hfits : total weight (p :: m) ≤ target
      · rwa [evict, if_pos hfits]
      · rwa [evict, if_neg hfits]

/-- Nothing is forgotten where there is room. -/
theorem evict_of_le {target : Nat} {m : Fifo K V} (h : total weight m ≤ target) :
    evict weight target m = m := by
  cases m with
  | nil =>
      rfl
  | cons p m =>
      rw [evict, if_pos h]

/-- The rest is the longest one that is no heavier than `target`. -/
theorem suffix_evict {target : Nat} {m kept : Fifo K V} (hkept : kept <:+ m)
    (hfits : total weight kept ≤ target) : kept <:+ evict weight target m := by
  induction m with
  | nil =>
      simpa [evict] using hkept
  | cons p m ih =>
      by_cases hall : total weight (p :: m) ≤ target
      · rwa [evict, if_pos hall]
      · rw [evict, if_neg hall]
        rcases List.suffix_cons_iff.1 hkept with rfl | hrest
        · exact absurd hfits hall
        · exact ih hrest

end Weight

/-! ## The operations -/

variable [DecidableEq K] (weight : V → Nat)

def get (k : K) : Fifo K V → Option V
  | [] => none
  | p :: m => if p.1 = k then some p.2 else get k m

def erase (k : K) (m : Fifo K V) : Fifo K V :=
  m.filter (fun p => p.1 ≠ k)

/-- Make room for the value below `bound`, and bind the key to it. -/
def insert (bound : Nat) (k : K) (v : V) (m : Fifo K V) : Fifo K V :=
  erase k (evict weight (bound - weight v) m) ++ [(k, v)]

section Get

variable {weight} {k k' : K} {v : V} {m m' : Fifo K V}

theorem get_eq_none : get k m = none ↔ k ∉ keys m := by
  induction m with
  | nil =>
      simp [get, keys]
  | cons p m ih =>
      by_cases hp : p.1 = k
      · simp [get, keys, hp]
      · have hne : k ≠ p.1 := fun h => hp h.symm
        rw [get, if_neg hp, ih]
        simp [keys, hne]

theorem mem_of_get (h : get k m = some v) : (k, v) ∈ m := by
  induction m with
  | nil =>
      simp [get] at h
  | cons p m ih =>
      by_cases hp : p.1 = k
      · have hv : p.2 = v := by
          simpa [get, hp] using h
        rw [← hp, ← hv]
        exact List.mem_cons_self
      · rw [get, if_neg hp] at h
        exact List.mem_cons_of_mem _ (ih h)

theorem get_append_of_mem (h : k ∈ keys m) : get k (m ++ m') = get k m := by
  induction m with
  | nil =>
      simp [keys] at h
  | cons p m ih =>
      by_cases hp : p.1 = k
      · simp [get, hp]
      · have hrest : k ∈ keys m := by
          simpa [keys, Ne.symm hp] using h
        calc
          get k (p :: m ++ m') = get k (m ++ m') := if_neg hp
          _ = get k m := ih hrest
          _ = get k (p :: m) := (if_neg hp).symm

theorem get_append_of_notMem (h : k ∉ keys m) : get k (m ++ m') = get k m' := by
  induction m with
  | nil =>
      rfl
  | cons p m ih =>
      have hp : ¬ p.1 = k := fun heq => h (by simp [keys, heq])
      have hrest : k ∉ keys m := fun hmem => h (List.mem_cons_of_mem _ hmem)
      calc
        get k (p :: m ++ m') = get k (m ++ m') := if_neg hp
        _ = get k m' := ih hrest

theorem keys_erase : keys (erase k m) = (keys m).filter (fun k' => k' ≠ k) := by
  rw [keys, erase, keys, List.filter_map]
  rfl

theorem get_erase_self : get k (erase k m) = none := by
  rw [get_eq_none, keys_erase]
  simp

theorem erase_cons_self {p : K × V} (hp : p.1 = k) : erase k (p :: m) = erase k m :=
  List.filter_cons_of_neg (by simp [hp])

theorem erase_cons_of_ne {p : K × V} (hp : ¬ p.1 = k) : erase k (p :: m) = p :: erase k m :=
  List.filter_cons_of_pos (by simp [hp])

theorem get_erase_of_ne (h : k' ≠ k) : get k' (erase k m) = get k' m := by
  induction m with
  | nil =>
      rfl
  | cons p m ih =>
      by_cases hp : p.1 = k
      · have hne : ¬ p.1 = k' := fun heq => h (heq.symm.trans hp)
        calc
          get k' (erase k (p :: m)) = get k' (erase k m) := by rw [erase_cons_self hp]
          _ = get k' m := ih
          _ = get k' (p :: m) := (if_neg hne).symm
      · rw [erase_cons_of_ne hp, get, get, ih]

theorem erase_of_notMem (h : k ∉ keys m) : erase k m = m := by
  refine List.filter_eq_self.2 ?_
  intro p hp
  have hne : p.1 ≠ k := fun heq => h (heq ▸ List.mem_map_of_mem hp)
  simpa using hne

theorem get_insert_self (bound : Nat) : get k (insert weight bound k v m) = some v := by
  rw [insert, get_append_of_notMem (get_eq_none.1 get_erase_self)]
  simp [get]

/-- An insertion leaves the value of another key, or has forgotten it from the front. -/
theorem get_insert_of_ne (weight : V → Nat) (bound : Nat) (v : V) (h : k' ≠ k)
    (hnodup : (keys m).Nodup) :
    get k' (insert weight bound k v m) = get k' m ∨
      ∃ forgotten rest, m = forgotten ++ rest ∧ k' ∈ keys forgotten ∧
        insert weight bound k v m = erase k rest ++ [(k, v)] ∧
        get k' (insert weight bound k v m) = none := by
  -- a front part is forgotten; then the key's own binding goes, and the new one is the last
  rcases evict_suffix weight (bound - weight v) m with ⟨forgotten, hm⟩
  have hlast : get k' (insert weight bound k v m) =
      get k' (evict weight (bound - weight v) m) := by
    by_cases hmem : k' ∈ keys (erase k (evict weight (bound - weight v) m))
    · rw [insert, get_append_of_mem hmem, get_erase_of_ne h]
    · have hnone := get_eq_none.2 hmem
      rw [get_erase_of_ne h] at hnone
      have hne : ¬ k = k' := fun heq => h heq.symm
      rw [insert, get_append_of_notMem hmem, hnone]
      simp [get, hne]
  by_cases hforgotten : k' ∈ keys forgotten
  · refine Or.inr ⟨forgotten, _, hm, hforgotten, rfl, ?_⟩
    rw [hlast, get_eq_none]
    intro hmem
    rw [hm, keys, List.map_append] at hnodup
    exact List.disjoint_of_nodup_append hnodup hforgotten hmem
  -- the binding is not in the part that is forgotten
  · left
    have hsame : get k' m = get k' (evict weight (bound - weight v) m) := by
      conv_lhs => rw [hm]
      exact get_append_of_notMem hforgotten
    rw [hlast, hsame]

end Get

/-! ## Room for a new version of a key -/

section Replace

variable {k : K}

def weightOf (k : K) (m : Fifo K V) : Nat :=
  total weight (m.filter (fun p => p.1 = k))

/-- The bindings that were inserted after that of the key. -/
def behind (k : K) : Fifo K V → Fifo K V
  | [] => []
  | p :: m => if p.1 = k then m else behind k m

theorem total_erase_add (k : K) (m : Fifo K V) :
    total weight (erase k m) + weightOf weight k m = total weight m := by
  induction m with
  | nil =>
      rfl
  | cons p m ih =>
      by_cases hp : p.1 = k
      · have hweight : weightOf weight k (p :: m) = weight p.2 + weightOf weight k m := by
          simp [weightOf, hp]
        rw [erase_cons_self hp, hweight, total_cons, ← ih]
        exact Nat.add_left_comm _ _ _
      · have hweight : weightOf weight k (p :: m) = weightOf weight k m := by
          simp [weightOf, hp]
        rw [erase_cons_of_ne hp, hweight, total_cons, total_cons, ← ih, Nat.add_assoc]

theorem behind_sublist_erase {m : Fifo K V} (h : (keys m).Nodup) :
    (behind k m).Sublist (erase k m) := by
  induction m with
  | nil =>
      exact List.Sublist.refl _
  | cons p m ih =>
      have hrest := (List.nodup_cons.1 h).2
      by_cases hp : p.1 = k
      · have hnot : k ∉ keys m := hp ▸ (List.nodup_cons.1 h).1
        rw [behind, if_pos hp, erase_cons_self hp, erase_of_notMem hnot]
      · rw [behind, if_neg hp, erase_cons_of_ne hp]
        exact (ih hrest).cons p

/-- When the first binding is that of the key, no other is lost for it. -/
theorem erase_evict_cons_self {target : Nat} {p : K × V} {m : Fifo K V} (hp : p.1 = k)
    (hnot : k ∉ keys m) : erase k (evict weight target (p :: m)) = evict weight target m := by
  by_cases hfits : total weight (p :: m) ≤ target
  · have hm : total weight m ≤ target :=
      Nat.le_trans (Nat.le_add_left _ _) ((total_cons weight p m) ▸ hfits)
    rw [evict, if_pos hfits, erase_cons_self hp, erase_of_notMem hnot, evict_of_le weight hm]
  · rw [evict, if_neg hfits]
    rcases evict_suffix weight target m with ⟨forgotten, hm⟩
    refine erase_of_notMem (fun hk => hnot ?_)
    rw [hm, keys, List.map_append]
    exact List.mem_append_right _ hk

/-- Room is made while the old binding of the key still counts and may itself be forgotten.  No more
is lost of the other keys than has to be exactly when what can stay would stay beside the old
binding too, or was all inserted after it. -/
theorem erase_evict_iff {target : Nat} {m : Fifo K V} (h : (keys m).Nodup) :
    erase k (evict weight target m) = evict weight target (erase k m) ↔
      total weight (evict weight target (erase k m)) + weightOf weight k m ≤ target ∨
        evict weight target (erase k m) <:+ behind k m := by
  induction m with
  | nil =>
      simp [evict, erase, weightOf]
  | cons p m ih =>
      have hrest := (List.nodup_cons.1 h).2
      by_cases hp : p.1 = k
      -- the old binding is the first to go
      · have hnot : k ∉ keys m := hp ▸ (List.nodup_cons.1 h).1
        have hbehind : behind k (p :: m) = m := if_pos hp
        rw [erase_cons_self hp, erase_of_notMem hnot, hbehind]
        exact iff_of_true (erase_evict_cons_self weight hp hnot) (Or.inr (evict_isSuffix _ _ _))
      · have hbehind : behind k (p :: m) = behind k m := if_neg hp
        have hweight : weightOf weight k (p :: m) = weightOf weight k m := by
          simp [weightOf, hp]
        have htotal : total weight (p :: erase k m) + weightOf weight k m =
            total weight (p :: m) := by
          rw [total_cons, total_cons, Nat.add_assoc, total_erase_add]
        rw [erase_cons_of_ne hp, hbehind, hweight]
        by_cases hfits : total weight (p :: m) ≤ target
        -- there is room for everything
        · have hless : total weight (p :: erase k m) ≤ target :=
            Nat.le_trans (Nat.le_add_right _ _) (htotal ▸ hfits)
          have hkept : evict weight target (p :: erase k m) = p :: erase k m :=
            evict_of_le weight hless
          have hall : evict weight target (p :: m) = p :: m := evict_of_le weight hfits
          rw [hkept, hall, erase_cons_of_ne hp]
          exact iff_of_true rfl (Or.inl (htotal ▸ hfits))
        · by_cases hless : total weight (p :: erase k m) ≤ target
          -- there is room only without the old binding, which stands further back
          · have hkept : evict weight target (p :: erase k m) = p :: erase k m :=
              evict_of_le weight hless
            rw [hkept, evict, if_neg hfits]
            refine iff_of_false ?_ ?_
            · intro heq
              rcases evict_suffix weight target m with ⟨forgotten, hm⟩
              have hle : (erase k (evict weight target m)).length ≤ (erase k m).length := by
                conv_rhs => rw [hm]
                rw [erase, erase, List.filter_append, List.length_append]
                exact Nat.le_add_left _ _
              rw [heq] at hle
              exact Nat.not_succ_le_self _ hle
            · rintro (hroom | hsuffix)
              · exact hfits (htotal ▸ hroom)
              · have hle := Nat.le_trans hsuffix.length_le (behind_sublist_erase hrest).length_le
                exact Nat.not_succ_le_self _ hle
          -- the first binding goes in either case
          · rw [evict, if_neg hfits, evict, if_neg hless]
            exact ih hrest

end Replace

/-! ## Runs -/

inductive Op (K V : Type)
  | insert (k : K) (v : V)
  | erase (k : K)
  deriving DecidableEq

variable {weight} {bound : Nat}

def Op.apply (weight : V → Nat) (bound : Nat) : Op K V → Fifo K V → Fifo K V
  | .insert k v, m => Fifo.insert weight bound k v m
  | .erase k, m => Fifo.erase k m

def run (weight : V → Nat) (bound : Nat) (ops : List (Op K V)) : Fifo K V :=
  ops.foldl (fun m op => op.apply weight bound m) []

/-- The value the key was bound to last, whatever became of the binding. -/
def lastInsert (k : K) (ops : List (Op K V)) : Option V :=
  ops.foldl
    (fun last op =>
      match op with
      | .insert k' v => if k' = k then some v else last
      | .erase _ => last)
    none

theorem nodup_keys_insert {m : Fifo K V} (h : (keys m).Nodup) (k : K) (v : V) :
    (keys (insert weight bound k v m)).Nodup := by
  rcases evict_suffix weight (bound - weight v) m with ⟨forgotten, hm⟩
  have hrest : (keys (evict weight (bound - weight v) m)).Nodup := by
    rw [hm, keys, List.map_append] at h
    exact h.of_append_right
  rw [insert, keys, List.map_append]
  refine List.Nodup.append ?_ (List.nodup_singleton _) ?_
  · have hfilter := hrest.filter (fun k' => decide (k' ≠ k))
    rwa [← keys_erase] at hfilter
  · intro k' hk' hlast
    have heq : k' = k := by
      simpa using hlast
    exact get_eq_none.1 get_erase_self (heq ▸ hk')

theorem nodup_keys_erase {m : Fifo K V} (h : (keys m).Nodup) (k : K) :
    (keys (erase k m)).Nodup := by
  rw [keys_erase]
  exact h.filter _

theorem run_concat (ops : List (Op K V)) (op : Op K V) :
    run weight bound (ops ++ [op]) = op.apply weight bound (run weight bound ops) := by
  simp [run]

theorem nodup_keys_run (ops : List (Op K V)) : (keys (run weight bound ops)).Nodup := by
  induction ops using List.reverseRecOn with
  | nil =>
      exact List.nodup_nil
  | append_singleton ops op ih =>
      rw [run_concat]
      cases op with
      | insert k v =>
          exact nodup_keys_insert ih k v
      | erase k =>
          exact nodup_keys_erase ih k

/-- A value that is found is the one the key was bound to last. -/
theorem lastInsert_of_get_run {ops : List (Op K V)} {k : K} {v : V}
    (h : get k (run weight bound ops) = some v) : lastInsert k ops = some v := by
  induction ops using List.reverseRecOn with
  | nil =>
      cases h
  | append_singleton ops op ih =>
      rw [run_concat] at h
      cases op with
      | insert k' v' =>
          by_cases hk : k' = k
          · subst hk
            have hv : v' = v := by
              simpa [Op.apply, get_insert_self] using h
            simp [lastInsert, hv]
          -- an insertion of another key leaves the binding or forgets it, and it is there
          · have hold : get k (run weight bound ops) = some v := by
              rcases get_insert_of_ne weight bound v' (Ne.symm hk)
                (nodup_keys_run ops) with hsame | ⟨_, _, _, _, _, hnone⟩
              · exact hsame.symm.trans h
              · rw [Op.apply, hnone] at h
                cases h
            simpa [lastInsert, hk] using ih hold
      | erase k' =>
          have hold : get k (run weight bound ops) = some v := by
            by_cases hk : k = k'
            · subst hk
              rw [Op.apply, get_erase_self] at h
              cases h
            · rwa [Op.apply, get_erase_of_ne hk] at h
          simpa [lastInsert] using ih hold

end Fifo

end Lib
end Squiddish
