import Mathlib.Algebra.Order.BigOperators.Group.List
import Mathlib.Algebra.Order.Group.Nat
import Squiddish.Cache.Accounting
import Squiddish.Cache.Trees

/-!
# Orphans — which trees an eviction can empty

`rebuild_index` counts a file where it stands; an eviction looks where the stem of its name says it
should stand.  `evictable_iff` says for which trees the two agree: every listed stem can be cut
into a path, and every counted byte is in a file that some listed stem leads to.
-/

namespace Squiddish
namespace Cache

open Lib

namespace Tree

variable {tree : Tree} {s : FileStore OsPath}

/-! ## Removing the files of one stem -/

variable (tree) in
/-- What is left when the file under a path of the cache has been removed. -/
def drop (p : Path) (s : FileStore OsPath) : FileStore OsPath :=
  match tree.locate p with
  | some q => if (tree.dirs q).isNone then s.unlink q else s
  | none => s

theorem exec_removeQuietly (p : Path) :
    (FileProg.removeQuietly p).exec tree.apply s = ((), tree.drop p s) := by
  cases hlocate : tree.locate p with
  | none =>
      simp [FileProg.removeQuietly, apply, drop, hlocate]
  | some q =>
      cases hdirs : tree.dirs q with
      | some metadata =>
          simp [FileProg.removeQuietly, apply, osApply, drop, hlocate, hdirs]
      | none =>
          cases hdir : s.dir q with
          | none =>
              simp [FileProg.removeQuietly, apply, osApply, drop, hlocate, hdirs, FileOp.apply,
                hdir, FileStore.unlink_of_absent hdir]
          | some f =>
              simp [FileProg.removeQuietly, apply, osApply, drop, hlocate, hdirs, FileOp.apply,
                hdir]

variable (tree) in
def dropBase (base : Path) (s : FileStore OsPath) : FileStore OsPath :=
  tree.drop (withExtension base dataExt) (tree.drop (withExtension base metaExt) s)

variable (tree s) in
def lengthOfBase (base : Path) : Nat :=
  tree.lengthAt s (withExtension base metaExt) + tree.lengthAt s (withExtension base dataExt)

theorem exec_removeFiles (base : Path) :
    (removeFiles base).exec tree.apply s = (tree.lengthOfBase s base, tree.dropBase base s) := by
  simp [removeFiles, exec_fileSize, exec_removeQuietly, lengthOfBase, dropBase]

/-! ## Lengths after a removal -/

theorem length_drop_self {p : Path} {q : OsPath} (hlocate : tree.locate p = some q)
    (hdirs : tree.dirs q = none) : tree.length (tree.drop p s) q = 0 := by
  simp [drop, hlocate, hdirs, length, stat]

theorem length_drop_of_ne {p : Path} {q : OsPath}
    (h : ¬ (tree.locate p = some q ∧ tree.dirs q = none)) :
    tree.length (tree.drop p s) q = tree.length s q := by
  cases hlocate : tree.locate p with
  | none =>
      simp [drop, hlocate]
  | some r =>
      cases hdirs : tree.dirs r with
      | some metadata =>
          simp [drop, hlocate, hdirs]
      | none =>
          have hne : q ≠ r := by
            rintro rfl
            exact h ⟨hlocate, hdirs⟩
          have hmodified : (s.unlink r).modified = s.modified := rfl
          simp [drop, hlocate, hdirs, length, stat, FileStore.dir_unlink_of_ne hne, hmodified]

theorem length_drop_le (p : Path) (q : OsPath) :
    tree.length (tree.drop p s) q ≤ tree.length s q := by
  by_cases h : tree.locate p = some q ∧ tree.dirs q = none
  · rw [length_drop_self h.1 h.2]
    exact Nat.zero_le _
  · rw [length_drop_of_ne h]

/-- Two measures of distinct things that agree but for one. -/
theorem sum_le_add {α : Type*} {f g : α → Nat} {a : α} {x : Nat} {l : List α} (hl : l.Nodup)
    (hother : ∀ b, b ≠ a → f b ≤ g b) (hself : f a ≤ g a + x) :
    (l.map f).sum ≤ (l.map g).sum + x := by
  induction l with
  | nil =>
      exact Nat.zero_le _
  | cons b l ih =>
      rcases List.nodup_cons.1 hl with ⟨hnot, hrest⟩
      simp only [List.map_cons, List.sum_cons]
      by_cases hb : b = a
      · subst hb
        have hsame : (l.map f).sum ≤ (l.map g).sum := by
          refine List.sum_le_sum ?_
          intro c hc
          exact hother c (fun heq => hnot (heq ▸ hc))
        omega
      · have hle := hother b hb
        have hsum := ih hrest
        omega

variable (tree) in
/-- No more is lost than was measured. -/
theorem sum_length_drop {paths : List OsPath} (hpaths : paths.Nodup) (p : Path) :
    (paths.map (tree.length s)).sum ≤
      (paths.map (tree.length (tree.drop p s))).sum + tree.lengthAt s p := by
  cases hlocate : tree.locate p with
  | none =>
      simp [drop, lengthAt, hlocate]
  | some q =>
      have hmeasured : tree.lengthAt s p = tree.length s q := by
        simp [lengthAt, hlocate]
      rw [hmeasured]
      refine sum_le_add (a := q) hpaths ?_ (Nat.le_add_left _ _)
      intro b hb
      have hne : ¬ (tree.locate p = some b ∧ tree.dirs b = none) := by
        rintro ⟨hb', -⟩
        rw [hlocate] at hb'
        exact hb (Option.some.inj hb').symm
      exact (length_drop_of_ne hne).ge

/-- The files of one stem are its metadata and its data. -/
theorem length_dropBase_of_reached {base : Path} {q : OsPath} (hdirs : tree.dirs q = none)
    (h : tree.locate (withExtension base metaExt) = some q ∨
      tree.locate (withExtension base dataExt) = some q) :
    tree.length (tree.dropBase base s) q = 0 := by
  rcases h with hmeta | hdata
  · refine Nat.le_zero.1 ((length_drop_le _ q).trans ?_)
    rw [length_drop_self hmeta hdirs]
  · exact length_drop_self hdata hdirs

theorem length_dropBase_of_not {base : Path} {q : OsPath}
    (h : ¬ (tree.dirs q = none ∧ (tree.locate (withExtension base metaExt) = some q ∨
      tree.locate (withExtension base dataExt) = some q))) :
    tree.length (tree.dropBase base s) q = tree.length s q := by
  rw [dropBase, length_drop_of_ne, length_drop_of_ne]
  · exact fun hmeta => h ⟨hmeta.2, Or.inl hmeta.1⟩
  · exact fun hdata => h ⟨hdata.2, Or.inr hdata.1⟩

theorem length_dropBase_le (base : Path) (q : OsPath) :
    tree.length (tree.dropBase base s) q ≤ tree.length s q := by
  calc
    tree.length (tree.dropBase base s) q ≤
        tree.length (tree.drop (withExtension base metaExt) s) q := length_drop_le _ q
    _ ≤ tree.length s q := length_drop_le _ q

variable (tree) in
theorem lengthAt_drop_le (p p' : Path) : tree.lengthAt (tree.drop p s) p' ≤ tree.lengthAt s p' := by
  unfold lengthAt
  cases tree.locate p' with
  | none =>
      exact Nat.le_refl _
  | some q =>
      exact length_drop_le p q

variable (tree) in
theorem sum_length_dropBase {paths : List OsPath} (hpaths : paths.Nodup) (base : Path) :
    (paths.map (tree.length s)).sum ≤
      (paths.map (tree.length (tree.dropBase base s))).sum + tree.lengthOfBase s base := by
  have hmeta := sum_length_drop tree (s := s) hpaths (withExtension base metaExt)
  have hdata := sum_length_drop tree (s := tree.drop (withExtension base metaExt) s) hpaths
    (withExtension base dataExt)
  have hle := lengthAt_drop_le tree (s := s) (withExtension base metaExt)
    (withExtension base dataExt)
  unfold lengthOfBase dropBase
  omega

/-! ## Removing the files of all stems -/

variable (tree) in
/-- What is left when the stems of the order have been evicted. -/
def clear : List Str → FileStore OsPath → FileStore OsPath
  | [], s => s
  | hashHex :: order, s =>
      match filePathFromHash hashHex with
      | none => s
      | some base => clear order (tree.dropBase base s)

variable (tree) in
/-- The lengths that are measured on the way. -/
def freedBy : List Str → FileStore OsPath → Nat
  | [], _ => 0
  | hashHex :: order, s =>
      match filePathFromHash hashHex with
      | none => 0
      | some base => tree.lengthOfBase s base + freedBy order (tree.dropBase base s)

/-- Every stem can be cut into the names of directories. -/
def Sliced (order : List Str) : Prop :=
  ∀ hashHex ∈ order, (filePathFromHash hashHex).isSome = true

variable (tree) in
/-- A stem of the order leads to the file. -/
def Reached (order : List Str) (q : OsPath) : Prop :=
  tree.dirs q = none ∧ ∃ hashHex ∈ order, ∃ base, filePathFromHash hashHex = some base ∧
    (tree.locate (withExtension base metaExt) = some q ∨
      tree.locate (withExtension base dataExt) = some q)

theorem Sliced.head {hashHex : Str} {order : List Str} (h : Sliced (hashHex :: order)) :
    ∃ base, filePathFromHash hashHex = some base :=
  Option.isSome_iff_exists.1 (h hashHex List.mem_cons_self)

theorem Sliced.tail {hashHex : Str} {order : List Str} (h : Sliced (hashHex :: order)) :
    Sliced order :=
  fun hex hhex => h hex (List.mem_cons_of_mem _ hhex)

theorem Sliced.of_subset {order order' : List Str} (h : Sliced order) (hsub : order' ⊆ order) :
    Sliced order' :=
  fun hex hhex => h hex (hsub hhex)

theorem length_clear_le (order : List Str) (q : OsPath) :
    tree.length (tree.clear order s) q ≤ tree.length s q := by
  induction order generalizing s with
  | nil =>
      exact Nat.le_refl _
  | cons hashHex order ih =>
      cases hbase : filePathFromHash hashHex with
      | none =>
          simp [clear, hbase]
      | some base =>
          simp only [clear, hbase]
          calc
            tree.length (tree.clear order (tree.dropBase base s)) q ≤
                tree.length (tree.dropBase base s) q := ih
            _ ≤ tree.length s q := length_dropBase_le base q

theorem length_clear_of_reached {order : List Str} {q : OsPath} (hsliced : Sliced order)
    (h : tree.Reached order q) : tree.length (tree.clear order s) q = 0 := by
  rcases h with ⟨hdirs, hashHex, hmem, base, hbase, hreaches⟩
  induction order generalizing s with
  | nil =>
      cases hmem
  | cons hashHex' order ih =>
      rcases hsliced.head with ⟨base', hbase'⟩
      simp only [clear, hbase']
      rcases List.mem_cons.1 hmem with rfl | hmem
      · rw [hbase] at hbase'
        cases hbase'
        -- what is gone stays gone
        refine Nat.le_zero.1 ((length_clear_le order q).trans ?_)
        rw [length_dropBase_of_reached hdirs hreaches]
      · exact ih hsliced.tail hmem

theorem length_clear_of_not_reached {order : List Str} {q : OsPath}
    (h : ¬ tree.Reached order q) : tree.length (tree.clear order s) q = tree.length s q := by
  induction order generalizing s with
  | nil =>
      rfl
  | cons hashHex order ih =>
      cases hbase : filePathFromHash hashHex with
      | none =>
          simp [clear, hbase]
      | some base =>
          simp only [clear, hbase]
          have hrest : ¬ tree.Reached order q := by
            rintro ⟨hdirs, hex, hmem, hreaches⟩
            exact h ⟨hdirs, hex, List.mem_cons_of_mem _ hmem, hreaches⟩
          rw [ih hrest, length_dropBase_of_not]
          rintro ⟨hdirs, hreaches⟩
          exact h ⟨hdirs, hashHex, List.mem_cons_self, base, hbase, hreaches⟩

variable (tree) in
/-- What was there is still there or has been measured. -/
theorem sum_length_clear {paths : List OsPath} (hpaths : paths.Nodup) {order : List Str}
    (hsliced : Sliced order) :
    (paths.map (tree.length s)).sum ≤
      (paths.map (tree.length (tree.clear order s))).sum + tree.freedBy order s := by
  induction order generalizing s with
  | nil =>
      exact Nat.le_refl _
  | cons hashHex order ih =>
      rcases hsliced.head with ⟨base, hbase⟩
      have hone := sum_length_dropBase tree (s := s) hpaths base
      have hrest := ih (s := tree.dropBase base s) hsliced.tail
      simp only [clear, freedBy, hbase]
      omega

variable (tree s) in
theorem freedBy_append_le (done rest : List Str) :
    tree.freedBy done s ≤ tree.freedBy (done ++ rest) s := by
  induction done generalizing s with
  | nil =>
      exact Nat.zero_le _
  | cons hashHex done ih =>
      cases hbase : filePathFromHash hashHex with
      | none =>
          simp [freedBy, hbase]
      | some base =>
          simp only [List.cons_append, freedBy, hbase]
          exact Nat.add_le_add_left (ih _) _

/-! ## The loop -/

section Loop

variable (tree) in
/-- Stems that can be cut are evicted in their order, until there is enough room or none is
left. -/
theorem exec_evictLoop (currentSize targetSize : Nat) {order : List Str}
    (hsliced : Sliced order) (freed : Nat) :
    ∃ done rest, order = done ++ rest ∧
      (evictLoop currentSize targetSize order freed).exec tree.apply s =
        ((some (freed + tree.freedBy done s), rest), tree.clear done s) ∧
      (rest = [] ∨ currentSize - (freed + tree.freedBy done s) ≤ targetSize) := by
  induction order generalizing freed s with
  | nil =>
      exact ⟨[], [], rfl, rfl, Or.inl rfl⟩
  | cons hashHex order ih =>
      by_cases hroom : currentSize - freed ≤ targetSize
      · refine ⟨[], hashHex :: order, rfl, ?_, Or.inr hroom⟩
        simp [evictLoop, hroom, freedBy, clear]
      · rcases hsliced.head with ⟨base, hbase⟩
        rcases ih (s := tree.dropBase base s) hsliced.tail (freed + tree.lengthOfBase s base) with
          ⟨done, rest, horder, hexec, hend⟩
        have hfreed : freed + tree.freedBy (hashHex :: done) s =
            freed + tree.lengthOfBase s base + tree.freedBy done (tree.dropBase base s) := by
          simp [freedBy, hbase, Nat.add_assoc]
        refine ⟨hashHex :: done, rest, by rw [horder]; rfl, ?_, ?_⟩
        · rw [hfreed]
          simp [evictLoop, hroom, hbase, exec_removeFiles, hexec, clear]
        · rw [hfreed]
          exact hend

variable (tree s) in
/-- A stem that cannot be cut ends the loop by a panic, when the loop comes that far. -/
theorem exec_evictLoop_panic {order : List Str} (h : ¬ Sliced order) (freed : Nat) :
    ∃ bound, ∀ currentSize, bound ≤ currentSize →
      ((evictLoop currentSize 0 order freed).exec tree.apply s).1.1 = none := by
  induction order generalizing freed s with
  | nil =>
      exact absurd (fun hex hhex => by cases hhex) h
  | cons hashHex order ih =>
      cases hbase : filePathFromHash hashHex with
      | none =>
          refine ⟨freed + 1, ?_⟩
          intro currentSize hbound
          have hroom : ¬ currentSize - freed ≤ 0 := by
            omega
          simp only [evictLoop, if_neg hroom, hbase]
          rfl
      | some base =>
          have hrest : ¬ Sliced order := by
            intro hsliced
            refine h ?_
            intro hex hhex
            rcases List.mem_cons.1 hhex with rfl | hhex
            · simp [hbase]
            · exact hsliced hex hhex
          rcases ih (s := tree.dropBase base s) hrest (freed + tree.lengthOfBase s base) with
            ⟨bound, hpanic⟩
          refine ⟨max bound (freed + 1), ?_⟩
          intro currentSize hbound
          have hroom : ¬ currentSize - freed ≤ 0 := by
            omega
          have hexec := hpanic currentSize ((le_max_left _ _).trans hbound)
          simpa [evictLoop, hroom, hbase, exec_removeFiles] using hexec

end Loop

end Tree

/-! ## Puts -/

/-- The file system may answer anything. -/
def AnyAnswer (op : FileOp Path) (_ : Unit) (_ : op.Resp) (_ : Unit) : Prop :=
  True

structure PutDone where
  key : CacheKey
  entry : CacheEntry
  outcome : Outcome Unit

/-- A put is made and comes to this end. -/
def PutStep (S : Serde) (cache : DiskCache) (call : PutDone) (cache' : DiskCache) : Prop :=
  Relation.ReflTransGen (Prog.Step AnyAnswer) (DiskCache.put S call.key call.entry cache, ())
    (.ret (call.outcome, cache'), ())

section Puts

open Squiddish.Cache.Tree (Sliced)

variable {S : Serde} {cache : DiskCache}

theorem evictLoop_noPanic {currentSize targetSize : Nat} {order : List Str} (h : Sliced order)
    (freed : Nat) :
    Prog.Holds AnyAnswer (fun _ _ => True) (fun r _ => r.1 ≠ none ∧ Sliced r.2)
      (evictLoop currentSize targetSize order freed) () := by
  induction order generalizing freed with
  | nil =>
      exact ⟨Option.some_ne_none _, h⟩
  | cons hashHex order ih =>
      by_cases hroom : currentSize - freed ≤ targetSize
      · simp only [evictLoop, if_pos hroom]
        exact ⟨Option.some_ne_none _, h⟩
      · rcases h.head with ⟨base, hbase⟩
        simp only [evictLoop, if_neg hroom, hbase]
        exact Prog.Holds.seq (Prog.Holds.of_forall (fun _ _ => trivial) (fun _ _ => trivial) _ _)
          (fun actualSize _ _ => ih h.tail (freed + actualSize))

theorem evictIfNeeded_noPanic (h : Sliced cache.evictionOrder) (neededSize : Nat) :
    Prog.Holds AnyAnswer (fun _ _ => True)
      (fun r _ => r.1 ≠ .error .panic ∧ Sliced r.2.evictionOrder)
      (evictIfNeeded neededSize cache) () := by
  by_cases hfits : cache.currentSize + neededSize ≤ cache.maxSize
  · simp only [evictIfNeeded, if_pos hfits]
    exact ⟨Outcome.ok_ne_panic _, h⟩
  · simp only [evictIfNeeded, if_neg hfits]
    refine Prog.Holds.seq (evictLoop_noPanic h 0) ?_
    rintro ⟨freed, order⟩ _ ⟨hnone, horder⟩
    cases freed with
    | none =>
        exact absurd rfl hnone
    | some freed =>
        exact ⟨Outcome.ok_ne_panic _, horder⟩

theorem replaceEntry_noPanic (key : CacheKey) (entry : CacheEntry) (metaJson : Bytes)
    (h : Sliced cache.evictionOrder) :
    Prog.Holds AnyAnswer (fun _ _ => True)
      (fun r _ => r.1 ≠ .error .panic ∧ Sliced r.2.evictionOrder)
      (DiskCache.replaceEntry key entry metaJson cache) () := by
  have hany : ∀ {α : Type} (p : DiskProg α),
      Prog.Holds AnyAnswer (fun _ _ => True) (fun _ _ => True) p () :=
    fun p => Prog.Holds.of_forall (fun _ _ => trivial) (fun _ _ => trivial) p ()
  -- writing fails with an error of the file system, and never by a panic
  have hwrite : Prog.Holds AnyAnswer (fun _ _ => True) (fun r _ => r ≠ .error .panic)
      (writeEntry key entry metaJson) () := by
    refine .call trivial ?_
    rintro (e | u) _ -
    · exact Outcome.error_ne_panic _
    · refine Prog.Holds.seq (hany _) ?_
      rintro (e | u) _ -
      · exact Outcome.error_ne_panic _
      · refine Prog.Holds.seq (hany _) ?_
        rintro (e | u) _ -
        · exact Outcome.error_ne_panic _
        · exact Outcome.ok_ne_panic _
  refine Prog.Holds.seq (hany _) ?_
  intro oldSize _ _
  have hkept : Sliced
      (if 0 < oldSize then cache.retainOther key.hashHex else cache).evictionOrder := by
    by_cases hold : 0 < oldSize
    · rw [if_pos hold]
      exact h.of_subset (List.filter_subset_self _)
    · rwa [if_neg hold]
  refine Prog.Holds.seq hwrite ?_
  rintro (e | newSize) _ hpanic
  · refine ⟨?_, hkept⟩
    rintro heq
    exact hpanic (by rw [Except.error.inj heq])
  · refine ⟨Outcome.ok_ne_panic _, ?_⟩
    intro hex hhex
    rcases List.mem_append.1 hhex with hold | hnew
    · exact hkept hex hold
    · rw [List.mem_singleton.1 hnew, filePathFromHash_hashHex]
      rfl

/-- Whatever the file system answers, no put panics while all stems can be cut, and all stay so. -/
theorem put_noPanic (key : CacheKey) (entry : CacheEntry) (h : Sliced cache.evictionOrder) :
    Prog.Holds AnyAnswer (fun _ _ => True)
      (fun r _ => r.1 ≠ .error .panic ∧ Sliced r.2.evictionOrder)
      (DiskCache.put S key entry cache) () := by
  cases hjson : S.toVec entry.metadata with
  | error text =>
      simp only [DiskCache.put, hjson]
      exact ⟨Outcome.error_ne_panic _, h⟩
  | ok metaJson =>
      by_cases hlarge : cache.maxSize < metaJson.length + entry.data.length
      · simp only [DiskCache.put, hjson, if_pos hlarge]
        exact ⟨Outcome.ok_ne_panic _, h⟩
      · simp only [DiskCache.put, hjson, if_neg hlarge]
        refine Prog.Holds.seq (evictIfNeeded_noPanic h _) ?_
        rintro ⟨r | u, cache'⟩ _ ⟨hpanic, horder⟩
        · exact ⟨fun heq => hpanic (by rw [Except.error.inj heq]), horder⟩
        · exact replaceEntry_noPanic key entry metaJson horder

theorem PutStep.sliced {cache' : DiskCache} {call : PutDone} (h : Sliced cache.evictionOrder)
    (hstep : PutStep S cache call cache') :
    call.outcome ≠ .error .panic ∧ Sliced cache'.evictionOrder := by
  have hend := (put_noPanic (S := S) call.key call.entry h).steps hstep
  exact hend

/-- In no run of puts does one panic. -/
theorem outcomes_of_run {cache' : DiskCache} {calls : List PutDone}
    (h : Sliced cache.evictionOrder) (hrun : Run (PutStep S) cache calls cache') :
    ∀ call ∈ calls, call.outcome ≠ .error .panic := by
  induction hrun with
  | nil cache =>
      intro call hcall
      cases hcall
  | cons hstep _ ih =>
      have hone := hstep.sliced h
      intro call hcall
      rcases List.mem_cons.1 hcall with rfl | hrest
      · exact hone.1
      · exact ih hone.2 call hrest

end Puts

/-! ## Which trees can be emptied -/

/-- After `rebuild_index` no put panics, and evicting until the order is empty, whatever the
counter is then, deletes every counted byte and takes all of them off the counter. -/
structure Evictable (S : Serde) (tree : Tree) : Prop where
  safe : ∀ maxSize calls cache, Run (PutStep S) (tree.rebuilt maxSize) calls cache →
    ∀ call ∈ calls, call.outcome ≠ .error .panic
  emptied : ∀ maxSize currentSize targetSize r t,
    (evictLoop currentSize targetSize (tree.rebuilt maxSize).evictionOrder 0).exec tree.apply
      tree.files = (r, t) →
    r.1 ≠ none ∧ ∀ freed, r = (some freed, []) →
      (∀ p ∈ tree.counted, tree.length t p = 0) ∧ (tree.rebuilt maxSize).currentSize - freed = 0

/-- The listed stems lead to all that is counted. -/
structure Matched (tree : Tree) : Prop where
  sliced : Tree.Sliced tree.stems
  reached : ∀ p ∈ tree.counted, 0 < tree.length tree.files p → tree.Reached tree.stems p

section Evict

variable {S : Serde} {tree : Tree}

theorem sliced_rebuilt {maxSize : Nat} :
    Tree.Sliced (tree.rebuilt maxSize).evictionOrder ↔ Tree.Sliced tree.stems :=
  forall_congr' fun _ => imp_congr_left Tree.mem_order_rebuilt

theorem reached_rebuilt {maxSize : Nat} {p : OsPath} :
    tree.Reached (tree.rebuilt maxSize).evictionOrder p ↔ tree.Reached tree.stems p :=
  and_congr_right fun _ => exists_congr fun _ => and_congr_left fun _ => Tree.mem_order_rebuilt

theorem Evictable.matched (h : Evictable S tree) : Matched tree := by
  have hsliced : Tree.Sliced (tree.rebuilt 0).evictionOrder := by
    by_contra hnot
    rcases tree.exec_evictLoop_panic tree.files hnot 0 with ⟨bound, hpanic⟩
    exact (h.emptied 0 bound 0 _ _ rfl).1 (hpanic bound (Nat.le_refl _))
  refine ⟨sliced_rebuilt.1 hsliced, ?_⟩
  intro p hp hpos
  by_contra hnot
  -- the counter is too high for all that can be freed
  rcases tree.exec_evictLoop (s := tree.files)
    (tree.freedBy (tree.rebuilt 0).evictionOrder tree.files + 1) 0 hsliced 0 with
    ⟨done, rest, horder, hexec, hend⟩
  have hrest : rest = [] := by
    refine hend.resolve_right ?_
    have hle := tree.freedBy_append_le tree.files done rest
    rw [← horder] at hle
    omega
  rw [hrest, List.append_nil] at horder
  rw [hrest] at hexec
  have hgone := ((h.emptied 0 _ 0 _ _ hexec).2 _ rfl).1 p hp
  have hunreached : ¬ tree.Reached done p := by
    rw [← horder, reached_rebuilt]
    exact hnot
  rw [Tree.length_clear_of_not_reached hunreached] at hgone
  omega

theorem evictable_iff (S : Serde) (tree : Tree) : Evictable S tree ↔ Matched tree := by
  constructor
  · exact Evictable.matched
  · intro h
    refine ⟨fun maxSize calls cache => outcomes_of_run (sliced_rebuilt.2 h.sliced), ?_⟩
    intro maxSize currentSize targetSize r t hr
    have hsliced : Tree.Sliced (tree.rebuilt maxSize).evictionOrder := sliced_rebuilt.2 h.sliced
    rcases tree.exec_evictLoop (s := tree.files) currentSize targetSize hsliced 0 with
      ⟨done, rest, horder, hexec, -⟩
    rw [hexec] at hr
    cases hr
    refine ⟨Option.some_ne_none _, ?_⟩
    intro freed hfreed
    rcases Prod.mk.inj hfreed with ⟨hsome, hrest⟩
    rw [hrest, List.append_nil] at horder
    rw [horder] at hsliced
    have hgone : ∀ p ∈ tree.counted, tree.length (tree.clear done tree.files) p = 0 := by
      intro p hp
      rcases Nat.eq_zero_or_pos (tree.length tree.files p) with hzero | hpos
      · exact Nat.le_zero.1 ((Tree.length_clear_le done p).trans_eq hzero)
      · have hreached : tree.Reached done p := by
          rw [← horder, reached_rebuilt]
          exact h.reached p hp hpos
        exact Tree.length_clear_of_reached hsliced hreached
    refine ⟨hgone, ?_⟩
    have hsum := tree.sum_length_clear (s := tree.files) tree.counted_nodup hsliced
    have hzero : (tree.counted.map (tree.length (tree.clear done tree.files))).sum = 0 := by
      refine List.sum_eq_zero ?_
      intro n hn
      rcases List.mem_map.1 hn with ⟨p, hp, rfl⟩
      exact hgone p hp
    rw [hzero, ← Tree.currentSize_rebuilt maxSize] at hsum
    have hfreed' := Option.some.inj hsome
    omega

end Evict

/-! ## The files of the cache itself -/

theorem stem_metaPath (key : CacheKey) :
    Tree.stem (Tree.encode key.metaPath) = some key.hashHex := by
  have hname : key.metaPath.getLast? = some (key.hashHex ++ '.' :: metaExt) := by
    rw [CacheKey.metaPath_eq]
    rfl
  rw [Tree.stem, Tree.getLast?_encode, hname, Option.map_some, Option.bind_some,
    Tree.osFileStem_utf8Bytes, fileStem_entry key dot_notMem_metaExt, utf8Text_utf8Bytes]

/-- A tree whose `.meta` files are those of keys, in their places, can be emptied. -/
theorem matched_of_entries {tree : Tree}
    (hlocate : ∀ path, tree.locate path = some (Tree.encode path))
    (hentries : ∀ p ∈ tree.listing.paths [], tree.isMeta p = true →
      ∃ key : CacheKey, p = Tree.encode key.metaPath ∧
        tree.dirs (Tree.encode key.metaPath) = none ∧
        tree.dirs (Tree.encode key.dataPath) = none) :
    Matched tree := by
  have hkeys : ∀ p ∈ tree.metaFiles, ∃ key : CacheKey, p = Tree.encode key.metaPath ∧
      tree.dirs (Tree.encode key.metaPath) = none ∧
      tree.dirs (Tree.encode key.dataPath) = none := by
    intro p hp
    rcases Tree.mem_metaFiles.1 hp with ⟨hlisted, hmeta⟩
    exact hentries p hlisted hmeta
  constructor
  · intro hashHex hmem
    rcases List.mem_filterMap.1 hmem with ⟨p, hp, hstem⟩
    rcases hkeys p hp with ⟨key, rfl, -⟩
    rw [stem_metaPath] at hstem
    rw [← Option.some.inj hstem, filePathFromHash_hashHex]
    rfl
  · intro p hp _
    rcases List.mem_flatMap.1 hp with ⟨path, hpath, hmem⟩
    rcases hkeys path hpath with ⟨key, rfl, hmeta, hdata⟩
    have hstem : key.hashHex ∈ tree.stems :=
      List.mem_filterMap.2 ⟨_, hpath, stem_metaPath key⟩
    have hbase := filePathFromHash_hashHex key
    rw [Tree.osWithExtension_encode, withExtension_metaPath] at hmem
    rcases List.mem_cons.1 hmem with rfl | hmem
    · exact ⟨hmeta, key.hashHex, hstem, key.filePath, hbase, Or.inl (hlocate _)⟩
    · rw [List.mem_singleton.1 hmem]
      exact ⟨hdata, key.hashHex, hstem, key.filePath, hbase, Or.inr (hlocate _)⟩

/-! ## A stem that is too short -/

def shortPath : Path :=
  ["abc.meta".toList]

/-- The cache directory holds the one file `abc.meta`, which has one byte. -/
def shortTree : Tree where
  listing := .file (utf8Bytes "abc.meta".toList) .nil
  files := (FileStore.empty 0).save (Tree.encode shortPath) [120]
  dirs := fun _ => none
  locate := fun path => some (Tree.encode path)
  distinct := ⟨List.not_mem_nil, trivial⟩
  apart := fun _ _ => rfl

theorem walk_shortTree : shortTree.walk = [Tree.encode shortPath] := by
  unfold Tree.walk
  rw [Listing.walk_cons]
  have hrest : Listing.walk ((Listing.subdirs shortTree.listing []).reverse ++ []) = [] :=
    Listing.walk_nil
  rw [hrest]
  rfl

theorem file_shortTree : shortTree.files.file (Tree.encode shortPath) = some [120] :=
  FileStore.file_save_self _

theorem stat_shortTree :
    ∃ modified, shortTree.stat shortTree.files (Tree.encode shortPath) =
      some { len := 1, modified := modified } := by
  rcases Option.map_eq_some_iff.1 file_shortTree with ⟨f, hdir, hcontent⟩
  refine ⟨shortTree.files.modified f, ?_⟩
  have hdirs : shortTree.dirs (Tree.encode shortPath) = none := rfl
  simp [Tree.stat, hdirs, hdir, hcontent]

theorem isMeta_shortTree : shortTree.isMeta (Tree.encode shortPath) = true := by
  rcases stat_shortTree with ⟨modified, hstat⟩
  have hlast : (Tree.encode shortPath).getLast? = some (utf8Bytes "abc.meta".toList) := rfl
  have hext : isMetaName (utf8Bytes "abc.meta".toList) = true :=
    (Tree.isMetaName_utf8Bytes _).2 (by decide)
  simp only [Tree.isMeta, hlast, hext, hstat, Option.isSome_some, Bool.and_self]

theorem stem_shortPath : Tree.stem (Tree.encode shortPath) = some "abc".toList := by
  have hlast : (Tree.encode shortPath).getLast? = some (utf8Bytes "abc.meta".toList) := rfl
  have hstem : fileStem "abc.meta".toList = "abc".toList := by
    decide
  rw [Tree.stem, hlast, Option.bind_some, Tree.osFileStem_utf8Bytes, hstem, utf8Text_utf8Bytes]

theorem order_shortTree (maxSize : Nat) :
    (shortTree.rebuilt maxSize).evictionOrder = ["abc".toList] := by
  rcases stat_shortTree with ⟨modified, hstat⟩
  have hindexed : ∃ file, shortTree.indexed (Tree.encode shortPath) = [file] ∧
      file.hashHex = "abc".toList := by
    simp only [Tree.indexed, isMeta_shortTree, hstat, stem_shortPath]
    exact ⟨_, rfl, rfl⟩
  rcases hindexed with ⟨file, hfile, hhash⟩
  simp only [Tree.rebuilt, osRebuildIndex, Prog.exec_bind, Tree.exec_osIndexFiles, walk_shortTree,
    List.flatMap_cons, List.flatMap_nil, List.append_nil, List.nil_append, hfile, Prog.exec_ret,
    List.mergeSort_singleton, List.map_cons, List.map_nil, hhash]

theorem currentSize_shortTree (maxSize : Nat) :
    0 < (shortTree.rebuilt maxSize).currentSize := by
  rcases stat_shortTree with ⟨modified, hstat⟩
  have hlen : shortTree.length shortTree.files (Tree.encode shortPath) = 1 := by
    simp [Tree.length, hstat]
  rw [Tree.currentSize_rebuilt]
  simp [Tree.counted, Tree.metaFiles, walk_shortTree, isMeta_shortTree, hlen]

theorem filePathFromHash_short : filePathFromHash "abc".toList = none := by
  decide

/-- It is counted, and the next put that needs its room panics. -/
theorem not_evictable_short :
    (∀ S, ¬ Evictable S shortTree) ∧
      ∀ (S : Serde) (key : CacheKey) (entry : CacheEntry) (metaJson : Bytes),
        S.toVec entry.metadata = .ok metaJson →
          ((DiskCache.put S key entry
            (shortTree.rebuilt (metaJson.length + entry.data.length))).exec shortTree.apply
              shortTree.files).1.1 = .error .panic := by
  constructor
  · intro S h
    have hmem : "abc".toList ∈ (shortTree.rebuilt 0).evictionOrder := by
      rw [order_shortTree]
      exact List.mem_singleton_self _
    have hsliced := sliced_rebuilt.2 h.matched.sliced _ hmem
    rw [filePathFromHash_short] at hsliced
    cases hsliced
  · intro S key entry metaJson hjson
    have hmax : (shortTree.rebuilt (metaJson.length + entry.data.length)).maxSize =
        metaJson.length + entry.data.length := by
      simp [Tree.rebuilt, osRebuildIndex, Tree.exec_osIndexFiles]
    have hpos := currentSize_shortTree (metaJson.length + entry.data.length)
    have horder := order_shortTree (metaJson.length + entry.data.length)
    generalize shortTree.rebuilt (metaJson.length + entry.data.length) = cache at *
    have hfits : ¬ cache.currentSize + (metaJson.length + entry.data.length) ≤ cache.maxSize := by
      omega
    have htarget : cache.maxSize - (metaJson.length + entry.data.length) = 0 := by
      omega
    have hroom : ¬ cache.currentSize - 0 ≤ 0 := by
      omega
    have hlarge : ¬ cache.maxSize < metaJson.length + entry.data.length := by
      omega
    simp only [DiskCache.put, hjson, if_neg hlarge, evictIfNeeded, if_neg hfits, htarget, horder,
      evictLoop, if_neg hroom, filePathFromHash_short, Prog.ret_bind, Prog.exec_ret]

end Cache
end Squiddish
