import Squiddish.Cache.Accounting

/-!
# Jobs — the disk cache at work, one file-system step at a time

The process works on one put or remove at a time, since writers hold a lock.  A put first makes room
and then replaces the entry.  The system may refuse any step, and the process may stop between any
two and be started again on the directory it has left.
-/

namespace Squiddish
namespace Cache

open Lib

/-! ## The machine -/

/-- What is being done. -/
inductive Stage
  /-- Room is made for the entry, whose metadata has this text. -/
  | evicting (key : CacheKey) (entry : CacheEntry) (metaJson : Bytes)
  /-- The entry of the key is replaced; `start` is the directory when this began. -/
  | replacing (key : CacheKey) (start : FileStore Path)
  | removing

inductive DiskProcess
  | stopped
  | idle (cache : DiskCache)
  | busy (stage : Stage) (rest : DiskProg (Outcome Unit × DiskCache))

structure DiskMachine where
  files : FileStore Path
  process : DiskProcess

inductive DiskEvent
  | start (maxSize : Nat) (walk : List Path)
  | put (now : Nat) (key : CacheKey) (entry : CacheEntry)
  | remove (key : CacheKey)
  | perform
  | refuse (e : IoError)
  | proceed
  | finish
  | stop

/-- The beginning of `put`: nothing more is done when the metadata has no text or the entry is
larger than the cache. -/
def DiskProcess.put (S : Serde) (key : CacheKey) (entry : CacheEntry) (cache : DiskCache) :
    DiskProcess :=
  match S.toVec entry.metadata with
  | .error _ => .idle cache
  | .ok metaJson =>
      if cache.maxSize < metaJson.length + entry.data.length then
        .idle cache
      else
        .busy (.evicting key entry metaJson)
          (evictIfNeeded (metaJson.length + entry.data.length) cache)

/-- The job is over with this result: it is not, when room has been made for an entry. -/
def Stage.Ends : Stage → Outcome Unit → Prop
  | .evicting _ _ _, .ok _ => False
  | _, _ => True

inductive DiskMachineStep (S : Serde) : DiskMachine → DiskEvent → DiskMachine → Prop
  | start {s : DiskMachine} {maxSize : Nat} {walk : List Path} {cache : DiskCache}
      {files : FileStore Path} :
      s.process = .stopped → walk.Perm s.files.names.toList →
      perform (DiskCache.new maxSize walk) s.files = (.ok cache, files) →
      DiskMachineStep S s (.start maxSize walk) { files := files, process := .idle cache }
  | put {s : DiskMachine} {cache : DiskCache} {now : Nat} {key : CacheKey} {entry : CacheEntry} :
      s.process = .idle cache →
      DiskMachineStep S s (.put now key entry)
        { files := s.files.setClock now, process := .put S key entry cache }
  | remove {s : DiskMachine} {cache : DiskCache} {key : CacheKey} :
      s.process = .idle cache →
      DiskMachineStep S s (.remove key)
        { s with process := .busy .removing (DiskCache.remove key cache) }
  | perform {s : DiskMachine} {stage : Stage} {op : FileOp Path}
      {next : op.Resp → DiskProg (Outcome Unit × DiskCache)} :
      s.process = .busy stage (.call op next) →
      DiskMachineStep S s .perform
        { files := (op.apply s.files).2, process := .busy stage (next (op.apply s.files).1) }
  | refuse {s : DiskMachine} {stage : Stage} {op : FileOp Path}
      {next : op.Resp → DiskProg (Outcome Unit × DiskCache)} {e : IoError} :
      s.process = .busy stage (.call op next) →
      DiskMachineStep S s (.refuse e) { s with process := .busy stage (next (.error e)) }
  | proceed {s : DiskMachine} {key : CacheKey} {entry : CacheEntry} {metaJson : Bytes}
      {cache : DiskCache} :
      s.process = .busy (.evicting key entry metaJson) (.ret (.ok (), cache)) →
      DiskMachineStep S s .proceed
        { s with
          process := .busy (.replacing key s.files)
            (DiskCache.replaceEntry key entry metaJson cache) }
  | finish {s : DiskMachine} {stage : Stage} {r : Outcome Unit} {cache : DiskCache} :
      s.process = .busy stage (.ret (r, cache)) → stage.Ends r →
      DiskMachineStep S s .finish { s with process := .idle cache }
  | stop {s : DiskMachine} : DiskMachineStep S s .stop { s with process := .stopped }

/-- An empty directory and no process yet. -/
def DiskMachine.init (now : Nat) : DiskMachine where
  files := FileStore.empty now
  process := .stopped

/-! ## Jobs without a fault -/

/-- Nothing is refused, and the process does not stop. -/
def DiskEvent.Faultless : DiskEvent → Prop
  | .refuse _ | .stop => False
  | _ => True

abbrev FaultlessStep (S : Serde) : DiskMachine → DiskEvent → DiskMachine → Prop :=
  Guarded (DiskMachineStep S) (fun _ a => a.Faultless)

section Whole

variable {S : Serde} {s : DiskMachine}

/-- The first part of the program of a stage is performed to its end. -/
theorem run_first {α : Type} (S : Serde) (files : FileStore Path) (stage : Stage)
    (p : DiskProg α) (q : α → DiskProg (Outcome Unit × DiskCache)) :
    ∃ as, Run (FaultlessStep S) { files := files, process := .busy stage (p >>= q) } as
      { files := (perform p files).2, process := .busy stage (q (perform p files).1) } := by
  induction p generalizing files with
  | ret a =>
      exact ⟨[], .nil _⟩
  | call op next ih =>
      rcases ih (op.apply files).1 (op.apply files).2 with ⟨as, hrun⟩
      exact ⟨_, .cons ⟨.perform rfl, trivial⟩ hrun⟩

theorem run_stage (S : Serde) (files : FileStore Path) (stage : Stage)
    (p : DiskProg (Outcome Unit × DiskCache)) :
    ∃ as, Run (FaultlessStep S) { files := files, process := .busy stage p } as
      { files := (perform p files).2, process := .busy stage (.ret (perform p files).1) } := by
  simpa using run_first S files stage p .ret

/-- A put that nothing interferes with does what `DiskCache::put` does. -/
theorem run_put_whole {cache cache' : DiskCache} {key : CacheKey} {entry : CacheEntry} {now : Nat}
    {r : Outcome Unit} {files : FileStore Path} (h : s.process = .idle cache)
    (hexec : perform (DiskCache.put S key entry cache) (s.files.setClock now) =
      ((r, cache'), files)) :
    ∃ as, Run (FaultlessStep S) s as { files := files, process := .idle cache' } := by
  have hput : FaultlessStep S s (.put now key entry) _ := ⟨.put h, trivial⟩
  cases hjson : S.toVec entry.metadata with
  | error text =>
      rcases perform_put_of_error hjson key cache (s.files.setClock now) with ⟨e, hnot⟩
      cases hnot.symm.trans hexec
      simp only [DiskProcess.put, hjson] at hput
      exact ⟨_, .single hput⟩
  | ok metaJson =>
      by_cases hlarge : cache.maxSize < metaJson.length + entry.data.length
      -- an entry larger than the cache is not written, and the put is over at once
      · have hnot := perform_put_of_large hjson hlarge key (s.files.setClock now)
        cases hnot.symm.trans hexec
        simp only [DiskProcess.put, hjson, if_pos hlarge] at hput
        exact ⟨_, .single hput⟩
      · simp only [DiskProcess.put, hjson, if_neg hlarge] at hput
        rw [put_of_fits hjson (Nat.le_of_not_lt hlarge), perform, Prog.exec_bind] at hexec
        -- first room is made
        rcases hevict : perform (evictIfNeeded (metaJson.length + entry.data.length) cache)
          (s.files.setClock now) with ⟨⟨r₁, cache₁⟩, u⟩
        have hevict' : Prog.exec FileOp.apply
            (evictIfNeeded (metaJson.length + entry.data.length) cache) (s.files.setClock now) =
              ((r₁, cache₁), u) := hevict
        rw [hevict'] at hexec
        rcases run_stage S (s.files.setClock now) (.evicting key entry metaJson)
          (evictIfNeeded (metaJson.length + entry.data.length) cache) with ⟨as, hroom⟩
        simp only [hevict] at hroom
        have hevicted := Run.cons hput hroom
        cases r₁ with
        | error e =>
            cases hexec
            exact ⟨_, hevicted.snoc ⟨.finish rfl trivial, trivial⟩⟩
        -- then the entry is replaced
        | ok _ =>
            rcases run_stage S u (.replacing key u)
              (DiskCache.replaceEntry key entry metaJson cache₁) with ⟨bs, hreplace⟩
            have hexec' : perform (DiskCache.replaceEntry key entry metaJson cache₁) u =
                ((r, cache'), files) := hexec
            rw [hexec'] at hreplace
            exact ⟨_, ((hevicted.snoc ⟨.proceed rfl, trivial⟩).append hreplace).snoc
              ⟨.finish rfl trivial, trivial⟩⟩

/-- So does a remove. -/
theorem run_remove_whole {cache : DiskCache} {key : CacheKey} (h : s.process = .idle cache) :
    ∃ as, Run (FaultlessStep S) s as
      { files := dropFiles key.filePath s.files
        process := .idle (afterRemove key
          (s.files.size key.metaPath + s.files.size key.dataPath) cache) } := by
  have hremove : FaultlessStep S s (.remove key) _ := ⟨.remove h, trivial⟩
  rcases run_stage S s.files .removing (DiskCache.remove key cache) with ⟨as, hrun⟩
  rw [perform_remove] at hrun
  exact ⟨_, (Run.cons hremove hrun).snoc ⟨.finish rfl trivial, trivial⟩⟩

/-- A remove measures both files before it touches one. -/
theorem remove_measured (key : CacheKey) (cache : DiskCache) :
    DiskCache.remove key cache =
      (FileProg.fileSize key.metaPath >>= fun metaSize =>
        FileProg.fileSize key.dataPath >>= fun dataSize => .ret (metaSize + dataSize)) >>=
        fun size =>
          FileProg.removeQuietly key.metaPath >>= fun _ =>
          FileProg.removeQuietly key.dataPath >>= fun _ =>
          .ret (.ok (), afterRemove key size cache) := by
  simp only [DiskCache.remove, removeEntry, removeFiles, Prog.bind_assoc, Prog.ret_bind,
    afterRemove]
  rfl

/-- When a remove has measured the files it is about to remove the metadata. -/
theorem run_remove_measured {cache : DiskCache} {key : CacheKey} (h : s.process = .idle cache) :
    ∃ as, Run (FaultlessStep S) s as
      { files := s.files
        process := .busy .removing
          (FileProg.removeQuietly key.metaPath >>= fun _ =>
            FileProg.removeQuietly key.dataPath >>= fun _ =>
            .ret (.ok (), afterRemove key
              (s.files.size key.metaPath + s.files.size key.dataPath) cache)) } := by
  have hremove : FaultlessStep S s (.remove key) _ := ⟨.remove h, trivial⟩
  rcases run_first S s.files .removing
    (FileProg.fileSize key.metaPath >>= fun metaSize =>
      FileProg.fileSize key.dataPath >>= fun dataSize => .ret (metaSize + dataSize))
    (fun size => FileProg.removeQuietly key.metaPath >>= fun _ =>
      FileProg.removeQuietly key.dataPath >>= fun _ =>
      .ret (.ok (), afterRemove key size cache)) with ⟨as, hrun⟩
  rw [← remove_measured] at hrun
  simp only [perform, Prog.exec_bind, FileProg.exec_fileSize, Prog.exec_ret] at hrun
  exact ⟨_, .cons hremove hrun⟩

end Whole

theorem DiskProcess.put_of_room {S : Serde} {key : CacheKey} {entry : CacheEntry}
    {metaJson : Bytes} {cache : DiskCache} (hjson : S.toVec entry.metadata = .ok metaJson)
    (hroom : cache.currentSize + (metaJson.length + entry.data.length) ≤ cache.maxSize) :
    DiskProcess.put S key entry cache =
      .busy (.evicting key entry metaJson) (.ret (.ok (), cache)) := by
  have hfits : ¬ cache.maxSize < metaJson.length + entry.data.length := by
    omega
  simp [DiskProcess.put, hjson, hfits, evictIfNeeded, hroom]

/-- When a put with room has removed the old files it is about to create the directory, and has
not touched the counter. -/
theorem run_put_cleared {S : Serde} {s : DiskMachine} {cache : DiskCache} {key : CacheKey}
    {entry : CacheEntry} {metaJson : Bytes} (now : Nat) (h : s.process = .idle cache)
    (hjson : S.toVec entry.metadata = .ok metaJson)
    (hroom : cache.currentSize + (metaJson.length + entry.data.length) ≤ cache.maxSize) :
    ∃ as next, Run (FaultlessStep S) s as
        { files := dropFiles key.filePath (s.files.setClock now)
          process := .busy (.replacing key (s.files.setClock now))
            (.call (.createDirAll key.filePath.dropLast) next) } ∧
      ∀ e, ∃ kept : DiskCache, next (.error e) = .ret (.error (ioFailure e), kept) ∧
        kept.currentSize = cache.currentSize := by
  have hput : FaultlessStep S s (.put now key entry) _ := ⟨.put h, trivial⟩
  rw [DiskProcess.put_of_room hjson hroom] at hput
  have hevicted := (Run.single hput).snoc ⟨.proceed rfl, trivial⟩
  rcases run_first S (s.files.setClock now) (.replacing key (s.files.setClock now))
    (removeEntry key) _ with ⟨as, hremoved⟩
  have hcleared := hevicted.append hremoved
  rw [perform_removeEntry] at hcleared
  refine ⟨_, _, hcleared, fun e => ⟨_, rfl, ?_⟩⟩
  split <;> rfl

/-! ## A process that has stored one entry -/

theorem start_empty (S : Serde) (maxSize now : Nat) :
    FaultlessStep S (.init now) (.start maxSize [])
      { files := FileStore.empty now, process := .idle ⟨maxSize, 0, []⟩ } :=
  ⟨.start rfl (by simp [DiskMachine.init, FileStore.empty]) (perform_new_empty maxSize now),
    trivial⟩

def exampleCache : DiskCache where
  maxSize := 1024
  currentSize := (exampleText shortEntry.metadata).length + shortEntry.data.length
  evictionOrder := [exampleKey.hashHex]

theorem pair_exampleFiles : pair exampleFiles exampleKey =
    (some (exampleText shortEntry.metadata), some shortEntry.data) :=
  pair_saveEntry_self exampleKey _ _ _

theorem run_store_example :
    ∃ as, Run (FaultlessStep exampleSerde) (.init 0) as
      { files := exampleFiles, process := .idle exampleCache } := by
  let cache : DiskCache := { maxSize := 1024, currentSize := 0, evictionOrder := [] }
  have hroom : cache.currentSize +
      ((exampleText shortEntry.metadata).length + shortEntry.data.length) ≤ cache.maxSize := by
    have hlen := length_exampleText_short
    have hdata : shortEntry.data.length = 2 := rfl
    simp only [cache]
    omega
  have hempty : dropFiles exampleKey.filePath ((FileStore.empty 0).setClock 0) =
      FileStore.empty 0 := by
    rw [dropFiles, FileStore.unlink_of_absent, FileStore.unlink_of_absent] <;> rfl
  have hafter : afterReplace exampleKey 0
      ((exampleText shortEntry.metadata).length + shortEntry.data.length) cache =
        exampleCache := by
    simp [afterReplace, exampleCache, cache]
  have hput := perform_put_of_room exampleSerde_short hroom exampleKey
    ((FileStore.empty 0).setClock 0)
  have hstored : perform (DiskCache.put exampleSerde exampleKey shortEntry cache)
      ((FileStore.empty 0).setClock 0) = ((.ok (), exampleCache), exampleFiles) := by
    rw [hput, hempty, ← hafter]
    rfl
  rcases run_put_whole (s := { files := FileStore.empty 0, process := _ }) rfl hstored with
    ⟨as, hrun⟩
  exact ⟨_, .cons (start_empty _ 1024 0) hrun⟩

end Cache
end Squiddish
