import Squiddish.Cache.Jobs

/-!
# Crashes — the index after the process has stopped anywhere

A process that stops in the middle of a put, a remove or an eviction leaves half of an entry behind.
`rebuild_index` looks at metadata files only, and `put` clears its hash from the order only when it
has measured bytes.  So the index is right again after the next start exactly when what is left can
be indexed: no data without metadata, and no empty metadata without data.
-/

namespace Squiddish
namespace Cache

open Lib

/-! ## Names -/

/-- The operation brings no file about but those of entries. -/
def MakesEntries (op : FileOp Path) : Prop :=
  ∀ p, op = .create p → ∃ key : CacheKey, p = key.metaPath ∨ p = key.dataPath

theorem MakesEntries.of_shrinks {op : FileOp Path} (h : op.Shrinks) : MakesEntries op := by
  rintro p rfl
  exact h.elim

theorem Named.apply {op : FileOp Path} {s : FileStore Path} (h : Named s)
    (hop : MakesEntries op) : Named (op.apply s).2 := by
  intro p bytes hp
  rcases Option.map_eq_some_iff.1 hp with ⟨f, hf, -⟩
  rcases FileOp.dir_of_dir_apply hf with hold | ⟨hcreate, -⟩
  · exact h p _ (FileStore.file_of_dir hold)
  · exact hop p hcreate

theorem replaceEntry_makesEntries (key : CacheKey) (entry : CacheEntry) (metaJson : Bytes)
    (cache : DiskCache) :
    (DiskCache.replaceEntry key entry metaJson cache).OnlyCalls MakesEntries := by
  have hwrite : ∀ f b, MakesEntries (.write f b) := by
    rintro f b p ⟨⟩
  have hflush : ∀ f, MakesEntries (.flush f) := by
    rintro f p ⟨⟩
  have hmeta : MakesEntries (.create key.metaPath) := by
    rintro p ⟨rfl⟩
    exact ⟨key, .inl rfl⟩
  have hdata : MakesEntries (.create key.dataPath) := by
    rintro p ⟨rfl⟩
    exact ⟨key, .inr rfl⟩
  refine ((removeFiles_shrinks _).mono fun _ => MakesEntries.of_shrinks).bind fun _ => ?_
  refine Prog.OnlyCalls.bind ?_ ?_
  · refine ⟨by rintro p ⟨⟩, ?_⟩
    intro r
    cases r with
    | error e =>
        trivial
    | ok _ =>
        refine (FileProg.writeFile_onlyCalls hwrite hmeta hflush metaJson).bind ?_
        intro r
        cases r with
        | error e =>
            trivial
        | ok _ =>
            refine (FileProg.writeFile_onlyCalls hwrite hdata hflush entry.data).bind ?_
            intro r
            cases r <;> trivial
  · intro r
    cases r <;> trivial

/-! ## The property and the condition -/

/-- The order names no hash twice, and the counter is the length of all files. -/
def InStep (s : DiskMachine) : Prop :=
  ∀ cache, s.process = .idle cache →
    cache.evictionOrder.Nodup ∧ cache.currentSize = cacheBytes s.files

/-- Nothing is refused, and the process stops only when what it leaves can be indexed. -/
def StopsIndexable (s : DiskMachine) : DiskEvent → Prop
  | .refuse _ => False
  | .stop => Indexable s.files
  | _ => True

theorem FaultlessStep.stopsIndexable {S : Serde} {s t : DiskMachine} {a : DiskEvent}
    (h : FaultlessStep S s a t) : Guarded (DiskMachineStep S) StopsIndexable s a t := by
  refine ⟨h.1, ?_⟩
  cases a with
  | refuse e =>
      exact h.2
  | stop =>
      exact h.2.elim
  | _ =>
      trivial

/-- What is so at all times in such runs. -/
structure Orderly (s : DiskMachine) : Prop where
  named : Named s.files
  work :
    match s.process with
    | .stopped => Indexable s.files
    | .idle cache => Counted s.files cache
    | .busy stage rest =>
        rest.OnlyCalls MakesEntries ∧
          Counted (perform rest s.files).2 (perform rest s.files).1.2 ∧
          ∀ key entry metaJson, stage = .evicting key entry metaJson → metaJson ≠ []

theorem Counted.setClock {s : FileStore Path} {cache : DiskCache} (h : Counted s cache)
    (now : Nat) : Counted (s.setClock now) cache where
  listed :=
    { named := h.listed.named
      indexable := ⟨h.listed.indexable.orphan, h.listed.indexable.sized⟩
      nodup := h.listed.nodup
      stored := h.listed.stored }
  size := h.size

namespace Orderly

variable {S : Serde} {s t : DiskMachine}

theorem init (now : Nat) : Orderly (.init now) where
  named := by
    intro p bytes hp
    cases hp
  work :=
    { orphan := fun _ _ => rfl
      sized := by
        intro key hmeta
        cases hmeta }

theorem put (h : Orderly s) (hS : S.NonEmpty) {cache : DiskCache} {now : Nat} {key : CacheKey}
    {entry : CacheEntry} (hidle : s.process = .idle cache) :
    Orderly { files := s.files.setClock now, process := .put S key entry cache } where
  named := h.named
  work := by
    have hcounted := h.work
    simp only [hidle] at hcounted
    have hclock := hcounted.setClock now
    cases hjson : S.toVec entry.metadata with
    | error text =>
        simpa only [DiskProcess.put, hjson] using hclock
    | ok metaJson =>
        by_cases hlarge : cache.maxSize < metaJson.length + entry.data.length
        · simpa only [DiskProcess.put, hjson, if_pos hlarge] using hclock
        · simp only [DiskProcess.put, hjson, if_neg hlarge]
          -- what the eviction leaves in the end is counted, whenever it is cut
          rcases evictIfNeeded_counted (P := fun _ => True) (fun _ _ h => h)
            (metaJson.length + entry.data.length) hclock trivial with
            ⟨cache', files, hexec, hcounted', -⟩
          refine ⟨(evictIfNeeded_shrinks _ _).mono fun _ => MakesEntries.of_shrinks, ?_, ?_⟩
          · rw [hexec]
            exact hcounted'
          · rintro _ _ _ ⟨rfl⟩
            exact hS _ _ hjson

theorem step (h : Orderly s) (hS : S.NonEmpty) {a : DiskEvent} (hstep : DiskMachineStep S s a t)
    (hok : StopsIndexable s a) : Orderly t := by
  have hwork := h.work
  cases hstep with
  | @start maxSize walk cache files hstopped hwalk hnew =>
      simp only [hstopped] at hwork
      rcases new_counted h.named hwork hwalk maxSize with ⟨cache', hnew', hcounted, -⟩
      cases hnew'.symm.trans hnew
      exact ⟨h.named, hcounted⟩
  | put hidle =>
      exact h.put hS hidle
  | @remove cache key hidle =>
      simp only [hidle] at hwork
      refine ⟨h.named, (remove_shrinks _ _).mono fun _ => MakesEntries.of_shrinks, ?_, by simp⟩
      rw [perform_remove]
      exact remove_counted hwork key
  | perform hbusy =>
      simp only [hbusy] at hwork
      rcases hwork with ⟨hcalls, hcounted, hstage⟩
      exact ⟨h.named.apply hcalls.1, hcalls.2 _, hcounted, hstage⟩
  | refuse _ =>
      exact hok.elim
  | @proceed key entry metaJson cache hbusy =>
      simp only [hbusy] at hwork
      rcases hwork with ⟨-, hcounted, hstage⟩
      -- the same for the replacement of the entry
      rcases replaceEntry_counted hcounted key entry (hstage key entry metaJson rfl) with
        ⟨cache', hexec, hcounted', -⟩
      refine ⟨h.named, replaceEntry_makesEntries key entry metaJson cache, ?_, by simp⟩
      have hexec' : perform (DiskCache.replaceEntry key entry metaJson cache) s.files = _ := hexec
      rw [hexec']
      exact hcounted'
  | finish hbusy _ =>
      simp only [hbusy] at hwork
      exact ⟨h.named, hwork.2.1⟩
  | stop =>
      exact ⟨h.named, hok⟩

theorem run (h : Orderly s) (hS : S.NonEmpty) {as : List DiskEvent}
    (hrun : Run (Guarded (DiskMachineStep S) StopsIndexable) s as t) : Orderly t :=
  hrun.invariant (fun _ _ _ h hstep => h.step hS hstep.1 hstep.2) h

theorem inStep (h : Orderly s) : InStep s := by
  intro cache hidle
  have hcounted := h.work
  simp only [hidle] at hcounted
  exact ⟨hcounted.listed.nodup, hcounted.size⟩

/-- From what can be indexed a new process keeps the index in step. -/
theorem inStep_of_run (h : Orderly s) (hS : S.NonEmpty) (hindexable : Indexable s.files)
    {as : List DiskEvent} (hrun : Run (FaultlessStep S) { s with process := .stopped } as t) :
    InStep t := by
  have hstopped : Orderly { s with process := .stopped } := ⟨h.named, hindexable⟩
  exact (hstopped.run hS (hrun.mono fun _ _ _ => FaultlessStep.stopsIndexable)).inStep

/-- A new process counts what has metadata, and may have any limit. -/
theorem start_named (S : Serde) (h : Named s.files) :
    ∃ order : List Str, (∀ hashHex, hashHex ∈ order ↔ Stored s.files hashHex) ∧
      ∀ maxSize, FaultlessStep S { s with process := .stopped }
        (.start maxSize s.files.names.toList)
        { files := s.files
          process := .idle
            { maxSize := maxSize
              currentSize := indexedBytes s.files
              evictionOrder := order } } := by
  rcases new_named h (List.Perm.refl _) with ⟨order, -, hstored, -, hnew⟩
  exact ⟨order, hstored, fun maxSize => ⟨.start rfl (List.Perm.refl _) (hnew maxSize), trivial⟩⟩

/-- A new process is at once out of step with data that has no metadata, and a first put of a key
whose metadata is empty enters its hash a second time. -/
theorem indexable_of_runs (h : Orderly s)
    (hwrites : ∃ entry : CacheEntry, ∃ metaJson, S.toVec entry.metadata = .ok metaJson)
    (hruns : ∀ as t, Run (FaultlessStep S) { s with process := .stopped } as t → InStep t) :
    Indexable s.files := by
  rcases start_named S h.named with ⟨order, hstored, hstart⟩
  refine ⟨?_, ?_⟩
  · intro key hmeta
    -- data without metadata: a new process is out of step at once
    have hcount : indexedBytes s.files = cacheBytes s.files :=
      (hruns _ _ (.single (hstart 0)) _ rfl).2
    by_contra hdata
    have hlt := indexedBytes_lt h.named hmeta (Nat.pos_of_ne_zero hdata)
    omega
  · intro key hmeta
    -- empty metadata without data: a put of the key enters its hash again
    rcases hwrites with ⟨entry, metaJson, hjson⟩
    by_contra hzero
    -- room enough, so that nothing is evicted and the old size of the key decides
    let cache : DiskCache :=
      { maxSize := indexedBytes s.files + (metaJson.length + entry.data.length)
        currentSize := indexedBytes s.files
        evictionOrder := order }
    have hroom : cache.currentSize + (metaJson.length + entry.data.length) ≤ cache.maxSize :=
      Nat.le_refl _
    have hput := perform_put_of_room hjson hroom key (s.files.setClock 0)
    rcases run_put_whole (s := { files := s.files, process := _ }) rfl hput with ⟨as, hrun⟩
    have hnodup := (hruns _ _ (.cons (hstart _) hrun) _ rfl).1
    have hold : ¬ 0 < (s.files.setClock 0).size key.metaPath +
        (s.files.setClock 0).size key.dataPath := hzero
    simp only [afterReplace, hold, if_false] at hnodup
    have hmem : key.hashHex ∈ order := (hstored _).2 (stored_iff.2 hmeta)
    exact (List.nodup_append.1 hnodup).2.2 _ hmem _ (by simp) rfl

end Orderly

/-! ## All runs -/

/-- The index is in step in every run whose stops leave what can be indexed, and another stop is
made good by a new process exactly when that leaves what can be indexed too. -/
theorem inStep_iff_indexable {S : Serde} (hS : S.NonEmpty)
    (hwrites : ∃ entry : CacheEntry, ∃ metaJson, S.toVec entry.metadata = .ok metaJson) {now : Nat}
    {as : List DiskEvent} {s : DiskMachine}
    (hrun : Run (Guarded (DiskMachineStep S) StopsIndexable) (.init now) as s) :
    InStep s ∧
      ((∀ bs t, Run (FaultlessStep S) { s with process := .stopped } bs t → InStep t) ↔
        Indexable s.files) := by
  have h : Orderly s := (Orderly.init now).run hS hrun
  refine ⟨h.inStep, h.indexable_of_runs hwrites, ?_⟩
  intro hindexable bs t hafter
  exact h.inStep_of_run hS hindexable hafter

/-- A stored entry can be indexed. -/
theorem orderly_exampleFiles :
    Orderly { files := exampleFiles, process := .idle exampleCache } := by
  rcases run_store_example with ⟨as, hstored⟩
  exact (Orderly.init 0).run exampleSerde_nonEmpty
    (hstored.mono fun _ _ _ => FaultlessStep.stopsIndexable)

/-- A process stores an entry and stops in the middle of its removal, where both files are still
there, and the next process removes it. -/
theorem inStep_iff_indexable_reopened :
    ∃ stored removing removed cache,
      let events := stored ++ removing ++ .stop :: .start 1024 exampleFiles.names.toList :: removed
      let s : DiskMachine :=
        { files := dropFiles exampleKey.filePath exampleFiles, process := .idle cache }
      Run (FaultlessStep exampleSerde) (.init 0) stored
          { files := exampleFiles, process := .idle exampleCache } ∧
        Run (Guarded (DiskMachineStep exampleSerde) StopsIndexable) (.init 0) events s ∧
        InStep s ∧
        ((∀ bs t, Run (FaultlessStep exampleSerde) { s with process := .stopped } bs t →
          InStep t) ↔ Indexable s.files) := by
  rcases run_store_example with ⟨stored, hstored⟩
  have horderly := orderly_exampleFiles
  have hindexable : Indexable exampleFiles := horderly.work.listed.indexable
  rcases @run_remove_measured exampleSerde
    { files := exampleFiles, process := .idle exampleCache } exampleCache exampleKey rfl with
    ⟨removing, hremoving⟩
  rcases Orderly.start_named (s := { files := exampleFiles, process := .stopped }) exampleSerde
    horderly.named with ⟨order, -, hstart⟩
  rcases @run_remove_whole exampleSerde
    { files := exampleFiles, process := .idle ⟨1024, indexedBytes exampleFiles, order⟩ }
    ⟨1024, indexedBytes exampleFiles, order⟩ exampleKey rfl with ⟨removed, hremoved⟩
  have hcut := (hstored.append hremoving).mono fun _ _ _ => FaultlessStep.stopsIndexable
  have hagain := (Run.cons (hstart 1024) hremoved).mono fun _ _ _ => FaultlessStep.stopsIndexable
  have hrun := hcut.append (.cons ⟨.stop, hindexable⟩ hagain)
  exact ⟨stored, removing, removed, _, hstored, hrun,
    inStep_iff_indexable exampleSerde_nonEmpty ⟨shortEntry, _, exampleSerde_short⟩ hrun⟩

/-! ## A removal cut in the middle -/

/-- Nothing is refused; the process may stop. -/
def DiskEvent.Granted : DiskEvent → Prop
  | .refuse _ => False
  | _ => True

/-- A removal that stops after the metadata file leaves data that the next process does not
count. -/
theorem not_inStep_removed :
    ¬ ∀ (S : Serde) (now : Nat) (as : List DiskEvent) (s : DiskMachine), S.NonEmpty →
      S.RoundTrip → Run (Guarded (DiskMachineStep S) (fun _ a => a.Granted)) (.init now) as s →
        InStep s := by
  intro hall
  rcases run_store_example with ⟨as, hstored⟩
  have hnamed : Named exampleFiles :=
    ((CompleteEntries.empty 0).saveEntry (exampleText_ne_nil _) _).named
  have hpair := pair_exampleFiles
  generalize exampleFiles = files at hstored hnamed hpair
  generalize exampleCache = cache at hstored
  have hgranted : ∀ s a t, FaultlessStep exampleSerde s a t →
      Guarded (DiskMachineStep exampleSerde) (fun _ a => a.Granted) s a t := by
    rintro s a t ⟨hstep, hfaultless⟩
    refine ⟨hstep, ?_⟩
    cases a with
    | refuse e =>
        exact hfaultless
    | _ =>
        trivial
  -- the process stops between the two `remove_file` calls
  rcases run_remove_measured (S := exampleSerde)
    (s := { files := files, process := .idle cache }) rfl with ⟨bs, hmeasured⟩
  have hmetaGone := (hstored.append hmeasured).mono hgranted |>.snoc ⟨.perform rfl, trivial⟩
  have hstopped := hmetaGone.snoc ⟨.stop, trivial⟩
  have hcut : Named (FileOp.apply (.removeFile exampleKey.metaPath) files).2 :=
    hnamed.apply (.of_shrinks trivial)
  rcases Orderly.start_named (s := { files := _, process := .stopped }) exampleSerde hcut with
    ⟨order, -, hstart⟩
  have hreopened := hstopped.snoc (hgranted _ _ _ (hstart 1024))
  have hcount := (hall exampleSerde 0 _ _ exampleSerde_nonEmpty exampleSerde_roundTrip hreopened
    _ rfl).2
  have hgone : (FileOp.apply (.removeFile exampleKey.metaPath) files).2 =
      files.unlink exampleKey.metaPath :=
    congrArg Prod.snd (FileProg.exec_removeQuietly exampleKey.metaPath files)
  rw [hgone] at hcut
  have hleft : 0 < (files.unlink exampleKey.metaPath).size exampleKey.dataPath := by
    rw [FileStore.size_congr (FileStore.file_unlink_of_ne CacheKey.metaPath_ne_dataPath.symm),
      FileStore.size_of_file (congrArg Prod.snd hpair)]
    decide
  have hlt := indexedBytes_lt hcut FileStore.file_unlink_self hleft
  rw [← hgone] at hlt
  exact absurd hcount (Nat.ne_of_lt hlt)

end Cache
end Squiddish
