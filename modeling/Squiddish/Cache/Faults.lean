import Squiddish.Cache.Jobs

/-!
# Faults — the index when the file system refuses steps

A put that fails returns before it touches the counter, and removals are counted whether they
succeed or not.  So the index stays right as long as every refusal is harmless: of a step that
would not have changed anything, of the removal of a file that is then overwritten, or of the first
steps of writing a key that had no files.
-/

namespace Squiddish
namespace Cache

open Lib

/-! ## Harmless refusals -/

/-- When the step is refused in this stage, the counter still tells what is there. -/
def Stage.Harmless (stage : Stage) (op : FileOp Path) (s : FileStore Path) : Prop :=
  match stage, op with
  | _, .metadata p => s.size p = 0
  -- a file that is not removed is emptied by the `File::create` that follows
  | .replacing _ _, .removeFile _ => True
  | _, .removeFile p => s.file p = none
  -- nothing has been removed or written, and the order has no such hash
  | .replacing key start, .createDirAll _ => pair start key = (none, none)
  | .replacing key start, .create p => p = key.metaPath ∧ pair start key = (none, none)
  | _, _ => False

/-- The process does not stop, is started with room for what is there, and what is refused is
harmless. -/
def HarmlessRefusals (s : DiskMachine) : DiskEvent → Prop
  | .refuse _ => ∃ stage op next,
      s.process = .busy stage (.call op next) ∧ stage.Harmless op s.files
  | .stop => False
  | .start maxSize _ => cacheBytes s.files ≤ maxSize
  | _ => True

/-- What a step may do in such a run. -/
def Stage.May (stage : Stage) (op : FileOp Path) (s : FileStore Path) (r : op.Resp)
    (t : FileStore Path) : Prop :=
  op.apply s = (r, t) ∨ stage.Harmless op s ∧ op.Refused s r t

/-! ## Removals -/

theorem removeFiles_respects (base : Path) : (removeFiles base).Respects FileOp.Alike := by
  refine (FileProg.fileSize_respects _).bind fun _ => ?_
  refine (FileProg.fileSize_respects _).bind fun _ => ?_
  refine (FileProg.removeQuietly_respects _).bind fun _ => ?_
  exact (FileProg.removeQuietly_respects _).bind fun _ => trivial

theorem evictLoop_respects (currentSize targetSize freed : Nat) (order : List Str) :
    (evictLoop currentSize targetSize order freed).Respects FileOp.Alike := by
  induction order generalizing freed with
  | nil =>
      trivial
  | cons hashHex order ih =>
      by_cases hdone : currentSize - freed ≤ targetSize
      · simp only [evictLoop, if_pos hdone]
        trivial
      · cases hbase : filePathFromHash hashHex with
        | none =>
            simp only [evictLoop, if_neg hdone, hbase]
            trivial
        | some base =>
            simp only [evictLoop, if_neg hdone, hbase]
            exact (removeFiles_respects base).bind fun _ => ih _

theorem evictIfNeeded_respects (neededSize : Nat) (cache : DiskCache) :
    (evictIfNeeded neededSize cache).Respects FileOp.Alike := by
  by_cases hfits : cache.currentSize + neededSize ≤ cache.maxSize
  · simp only [evictIfNeeded, if_pos hfits]
    trivial
  · simp only [evictIfNeeded, if_neg hfits]
    refine (evictLoop_respects _ _ _ _).bind fun r => ?_
    rcases r with ⟨freed | freed, order⟩
    · trivial
    · trivial

theorem remove_respects (key : CacheKey) (cache : DiskCache) :
    (DiskCache.remove key cache).Respects FileOp.Alike :=
  (removeFiles_respects _).bind fun _ => trivial

section Measure

variable {stage : Stage} {op : FileOp Path} {s t : FileStore Path} {r : op.Resp}

theorem May.alike_metadata {p : Path} {r : (FileOp.metadata p).Resp}
    (h : stage.May (.metadata p) s r t) :
    FileOp.Alike (.metadata p) (FileOp.apply (.metadata p) s).1 r ∧
      t = (FileOp.apply (.metadata p) s).2 := by
  have hlooks : (FileOp.metadata p).Looks := trivial
  have hstore := hlooks.store s
  rcases h with happly | ⟨hharmless, ⟨e, rfl⟩, ht⟩
  · rw [happly]
    exact ⟨FileOp.Alike.refl _ r, rfl⟩
  · have hsize : s.size p = 0 := by
      cases stage <;> exact hharmless
    exact ⟨(FileOp.lengthOf_apply_metadata p s).trans hsize, ht.trans hstore.symm⟩

/-- Outside of replacing, what may be done cannot be told from what is done. -/
theorem May.alike (hstage : ∀ key start, stage ≠ .replacing key start) (h : stage.May op s r t) :
    FileOp.Alike op (op.apply s).1 r ∧ t = (op.apply s).2 := by
  rcases h with happly | ⟨hharmless, hrefused⟩
  · rw [happly]
    exact ⟨FileOp.Alike.refl _ r, rfl⟩
  · cases op with
    | metadata p =>
        exact May.alike_metadata (.inr ⟨hharmless, hrefused⟩)
    | removeFile p =>
        refine ⟨trivial, ?_⟩
        have habsent : s.file p = none := by
          cases stage with
          | replacing key start =>
              exact absurd rfl (hstage key start)
          | _ =>
              exact hharmless
        rw [hrefused.2]
        simp [FileOp.apply, FileStore.file_eq_none.1 habsent]
    | _ =>
        cases stage with
        | replacing key start =>
            exact absurd rfl (hstage key start)
        | _ =>
            exact hharmless.elim

end Measure

/-- So such a program does what `perform` computes. -/
theorem holds_of_respects {stage : Stage} (hstage : ∀ key start, stage ≠ .replacing key start)
    {α : Type} {p : DiskProg α} (hcalls : p.OnlyCalls FileOp.Shrinks)
    (hp : p.Respects FileOp.Alike) (s : FileStore Path) :
    Prog.Holds stage.May (fun _ _ => True) (fun a t => perform p s = (a, t)) p s :=
  .of_alike (fun _ _ _ _ _ hmay => May.alike hstage hmay) hcalls hp s

/-! ## Replacing an entry -/

section Replace

variable {s : FileStore Path} {key : CacheKey}

/-- What is left of the directory `s` while the files of the key are removed, or are not. -/
structure Thinned (s : FileStore Path) (key : CacheKey) (t : FileStore Path) : Prop where
  other : ∀ p, p ≠ key.metaPath → p ≠ key.dataPath → t.file p = s.file p
  absent : pair s key = (none, none) → t = s

theorem Thinned.unlink {t : FileStore Path} (h : Thinned s key t) {p : Path}
    (hp : p = key.metaPath ∨ p = key.dataPath) : Thinned s key (t.unlink p) where
  other := by
    intro q hmeta hdata
    have hne : q ≠ p := by
      rcases hp with rfl | rfl
      · exact hmeta
      · exact hdata
    rw [FileStore.file_unlink_of_ne hne]
    exact h.other q hmeta hdata
  absent := by
    intro hnone
    rw [h.absent hnone]
    refine FileStore.unlink_of_absent (FileStore.file_eq_none.1 ?_)
    rcases hp with rfl | rfl
    · exact congrArg Prod.fst hnone
    · exact congrArg Prod.snd hnone

/-- The files of the key are measured and removed quietly. -/
theorem holds_removeEntry (s : FileStore Path) (key : CacheKey) :
    Prog.Holds (Stage.replacing key s).May (fun _ _ => True)
      (fun oldSize t => oldSize = s.size key.metaPath + s.size key.dataPath ∧ Thinned s key t)
      (removeEntry key) s := by
  have hmeasure : ∀ p, Prog.Holds (Stage.replacing key s).May (fun _ _ => True)
      (fun n t => n = s.size p ∧ t = s) (FileProg.fileSize p) s := by
    intro p
    have hcalls : (FileProg.fileSize p).OnlyCalls (fun op => ∃ p, op = .metadata p) := by
      refine ⟨⟨p, rfl⟩, ?_⟩
      intro r
      cases r <;> trivial
    have hexec : Prog.Holds (Stage.replacing key s).May (fun _ _ => True)
        (fun n t => perform (FileProg.fileSize p) s = (n, t)) (FileProg.fileSize p) s := by
      refine .of_alike ?_ hcalls (FileProg.fileSize_respects p) s
      rintro _ u r t ⟨p, rfl⟩ hmay
      exact May.alike_metadata hmay
    refine hexec.imp ?_
    intro n t h
    rw [perform, FileProg.exec_fileSize] at h
    exact ⟨(congrArg Prod.fst h).symm, (congrArg Prod.snd h).symm⟩
  have hremove : ∀ p, p = key.metaPath ∨ p = key.dataPath → ∀ t, Thinned s key t →
      Prog.Holds (Stage.replacing key s).May (fun _ _ => True) (fun _ u => Thinned s key u)
        (FileProg.removeQuietly p) t := by
    intro p hp t ht
    -- the file is removed, or stays, or was not there
    refine .call trivial ?_
    rintro r u (happly | ⟨-, -, rfl⟩)
    · have hunlink : u = t.unlink p := by
        have hexec := FileProg.exec_removeQuietly p t
        have hstore : (FileOp.apply (.removeFile p) t).2 = t.unlink p := congrArg Prod.snd hexec
        rwa [happly] at hstore
      exact hunlink ▸ ht.unlink hp
    · exact ht
  refine (hmeasure _).seq ?_
  rintro metaSize _ ⟨rfl, rfl⟩
  refine (hmeasure _).seq ?_
  rintro dataSize _ ⟨rfl, rfl⟩
  refine (hremove _ (.inl rfl) _ ⟨fun _ _ _ => rfl, fun _ => rfl⟩).seq fun _ t ht => ?_
  exact (hremove _ (.inr rfl) t ht).seq fun _ u hu => ⟨rfl, hu⟩

/-- The files of an entry do not depend on what they replace. -/
theorem file_saveEntry_of_thinned {t : FileStore Path} (h : Thinned s key t)
    (metaJson data : Bytes) :
    (saveEntry key metaJson data t).file =
      (saveEntry key metaJson data (dropFiles key.filePath s)).file := by
  funext p
  -- both files of the key are written anew, and no other
  by_cases hdata : p = key.dataPath
  · subst hdata
    exact (congrArg Prod.snd (pair_saveEntry_self key metaJson data t)).trans
      (congrArg Prod.snd (pair_saveEntry_self key metaJson data (dropFiles key.filePath s))).symm
  · by_cases hmeta : p = key.metaPath
    · subst hmeta
      exact (congrArg Prod.fst (pair_saveEntry_self key metaJson data t)).trans
        (congrArg Prod.fst (pair_saveEntry_self key metaJson data (dropFiles key.filePath s))).symm
    · have hsaved : ∀ u : FileStore Path, (saveEntry key metaJson data u).file p = u.file p := by
        intro u
        rw [saveEntry, FileStore.file_save_of_ne data hdata,
          FileStore.file_save_of_ne metaJson hmeta]
      have hdropped : (dropFiles key.filePath s).file p = s.file p :=
        (FileStore.file_unlink_of_ne hdata).trans (FileStore.file_unlink_of_ne hmeta)
      rw [hsaved, hsaved, hdropped, h.other p hmeta hdata]

/-- The steps of writing that no one may refuse. -/
def WritesOn (key : CacheKey) (op : FileOp Path) : Prop :=
  (∃ f b, op = .write f b) ∨ (∃ f, op = .flush f) ∨ op = .create key.dataPath

theorem May.of_writesOn {op : FileOp Path} {t u : FileStore Path} {r : op.Resp}
    (hop : WritesOn key op) (h : (Stage.replacing key s).May op t r u) :
    (op.apply t).1 = r ∧ u = (op.apply t).2 := by
  rcases h with happly | ⟨hharmless, -⟩
  · rw [happly]
    exact ⟨rfl, rfl⟩
  · rcases hop with ⟨f, b, rfl⟩ | ⟨f, rfl⟩ | rfl
    · exact hharmless.elim
    · exact hharmless.elim
    · exact absurd hharmless.1.symm CacheKey.metaPath_ne_dataPath

/-- Writing the entry succeeds, or fails before anything has changed. -/
theorem holds_writeEntry {t : FileStore Path} (h : Thinned s key t) (entry : CacheEntry)
    (metaJson : Bytes) :
    Prog.Holds (Stage.replacing key s).May (fun _ _ => True)
      (fun r u => (r = .ok (metaJson.length + entry.data.length) ∧
          u = saveEntry key metaJson entry.data t) ∨
        (∃ e, r = .error e) ∧ pair s key = (none, none) ∧ u = s)
      (writeEntry key entry metaJson) t := by
  refine .call trivial ?_
  rintro r u (happly | ⟨hnone, ⟨e, rfl⟩, rfl⟩)
  · cases happly
    refine .call trivial ?_
    rintro r u (happly | ⟨⟨-, hnone⟩, ⟨e, rfl⟩, rfl⟩)
    · cases happly
      have hwrite : ∀ f b, WritesOn key (.write f b) := fun f b => .inl ⟨f, b, rfl⟩
      have hflush : ∀ f, WritesOn key (.flush f) := fun f => .inr (.inl ⟨f, rfl⟩)
      -- from here on every step is performed, and the program does what `perform` computes
      refine (Prog.Holds.of_alike (fun _ _ _ _ hop hmay => May.of_writesOn hop hmay) ?_
        (Prog.Respects.of_eq _) _).imp ?_
      · refine Prog.OnlyCalls.bind ?_ ?_
        · refine (FileProg.writeAll_onlyCalls hwrite _ metaJson).bind ?_
          intro r
          cases r with
          | error e =>
              trivial
          | ok _ =>
              refine ⟨hflush _, ?_⟩
              intro r
              cases r <;> trivial
        · intro r
          cases r with
          | error e =>
              trivial
          | ok _ =>
              have hcreate : WritesOn key (.create key.dataPath) := .inr (.inr rfl)
              refine (FileProg.writeFile_onlyCalls hwrite hcreate hflush entry.data).bind ?_
              intro r
              cases r <;> trivial
      · intro r u hexec
        have hwhole : perform (writeEntry key entry metaJson) t = (r, u) := hexec
        rw [perform_writeEntry] at hwhole
        exact .inl ⟨(congrArg Prod.fst hwhole).symm, (congrArg Prod.snd hwhole).symm⟩
    · exact .inr ⟨⟨_, rfl⟩, hnone, h.absent hnone⟩
  · exact .inr ⟨⟨_, rfl⟩, hnone, h.absent hnone⟩

/-- Replacing an entry keeps the balance when there is room for it. -/
theorem holds_replaceEntry {cache : DiskCache} (h : Balanced s cache) {entry : CacheEntry}
    {metaJson : Bytes} (hjson : metaJson ≠ [])
    (hroom : cache.currentSize + (metaJson.length + entry.data.length) ≤ cache.maxSize) :
    Prog.Holds (Stage.replacing key s).May (fun _ _ => True) (fun a t => Balanced t a.2)
      (DiskCache.replaceEntry key entry metaJson cache) s := by
  refine (holds_removeEntry s key).seq ?_
  rintro oldSize t ⟨rfl, ht⟩
  refine (holds_writeEntry ht entry metaJson).seq ?_
  rintro r u (⟨rfl, rfl⟩ | ⟨⟨e, rfl⟩, hnone, rfl⟩)
  -- all steps of writing were performed
  · rcases replaceEntry_spec h key hjson hroom with ⟨cache', files, hexec, hbalanced, -, -⟩
    cases (perform_replaceEntry key entry metaJson cache s).symm.trans hexec
    exact hbalanced.congr (file_saveEntry_of_thinned ht metaJson entry.data)
  -- writing was refused, and the key had no files: nothing was measured either
  · have hmeta : u.size key.metaPath = 0 := FileStore.size_of_absent (congrArg Prod.fst hnone)
    have hdata : u.size key.dataPath = 0 := FileStore.size_of_absent (congrArg Prod.snd hnone)
    simpa [hmeta, hdata] using h

end Replace

/-! ## The property and what is so at all times -/

/-- The counter is the length of all files, the order names each hash with files once and no
other, and the files are within the limit. -/
structure Tallied (s : FileStore Path) (cache : DiskCache) : Prop where
  size : cache.currentSize = cacheBytes s
  nodup : cache.evictionOrder.Nodup
  listed : ∀ hashHex, hashHex ∈ cache.evictionOrder ↔
    ∃ key : CacheKey, key.hashHex = hashHex ∧ pair s key ≠ (none, none)
  bound : cacheBytes s ≤ cache.maxSize

/-- Whenever no job is under way. -/
def InTally (s : DiskMachine) : Prop :=
  ∀ cache, s.process = .idle cache → Tallied s.files cache

theorem Balanced.tallied {s : FileStore Path} {cache : DiskCache} (h : Balanced s cache) :
    Tallied s cache where
  size := h.size
  nodup := h.tracked.nodup
  listed := by
    intro hashHex
    rw [h.tracked.stored]
    constructor
    · rintro ⟨key, rfl, hfile⟩
      refine ⟨key, rfl, ?_⟩
      intro hnone
      have hmeta : s.file key.metaPath = none := congrArg Prod.fst hnone
      simp [hmeta] at hfile
    · rintro ⟨key, rfl, hsome⟩
      rcases h.tracked.complete.complete key with hnone | ⟨metaJson, data, _, hpair⟩
      · exact absurd hnone hsome
      · have hmeta : s.file key.metaPath = some metaJson := congrArg Prod.fst hpair
        exact ⟨key, rfl, by simp [hmeta]⟩
  bound := h.size ▸ h.bound

/-- What the program of a stage leaves. -/
def Stage.Leaves : Stage → Outcome Unit × DiskCache → FileStore Path → Prop
  | .evicting _ entry metaJson, a, t =>
      a.1 = .ok () ∧ Balanced t a.2 ∧ metaJson ≠ [] ∧
        a.2.currentSize + (metaJson.length + entry.data.length) ≤ a.2.maxSize
  | .replacing _ _, a, t => Balanced t a.2
  | .removing, a, t => Balanced t a.2

def Steady (s : DiskMachine) : Prop :=
  match s.process with
  | .stopped => CompleteEntries s.files
  | .idle cache => Balanced s.files cache
  | .busy stage rest => rest.Holds stage.May (fun _ _ => True) stage.Leaves s.files

namespace Steady

variable {S : Serde} {s t : DiskMachine}

theorem put (hS : S.NonEmpty) {files : FileStore Path} {cache : DiskCache}
    (h : Balanced files cache) (key : CacheKey) (entry : CacheEntry) :
    Steady { files := files, process := .put S key entry cache } := by
  cases hjson : S.toVec entry.metadata with
  | error text =>
      simpa only [Steady, DiskProcess.put, hjson] using h
  | ok metaJson =>
      by_cases hlarge : cache.maxSize < metaJson.length + entry.data.length
      · simpa only [Steady, DiskProcess.put, hjson, if_pos hlarge] using h
      · simp only [Steady, DiskProcess.put, hjson, if_neg hlarge]
        rcases evictIfNeeded_spec h (Nat.le_of_not_lt hlarge) with
          ⟨cache', u, hevict, hbalanced, -, -, hroom⟩
        refine (holds_of_respects (by simp) (evictIfNeeded_shrinks _ _)
          (evictIfNeeded_respects _ _) files).imp ?_
        intro a v hv
        cases hevict.symm.trans hv
        exact ⟨rfl, hbalanced, hS _ _ hjson, hroom⟩

theorem remove {files : FileStore Path} {cache : DiskCache} (h : Balanced files cache)
    (key : CacheKey) :
    Steady { files := files, process := .busy .removing (DiskCache.remove key cache) } := by
  rcases remove_spec h key with ⟨cache', u, hremove, hbalanced, -, -⟩
  refine (holds_of_respects (by simp) (remove_shrinks _ _) (remove_respects _ _) files).imp ?_
  intro a v hv
  cases hremove.symm.trans hv
  exact hbalanced

theorem step (h : Steady s) (hS : S.NonEmpty) {a : DiskEvent} (hstep : DiskMachineStep S s a t)
    (hok : HarmlessRefusals s a) : Steady t := by
  cases hstep with
  | @start maxSize walk cache files hstopped hwalk hnew =>
      simp only [Steady, hstopped] at h
      rcases new_spec h hwalk hok with ⟨cache', hnew', hbalanced, -, -⟩
      cases hnew'.symm.trans hnew
      exact hbalanced
  | put hidle =>
      simp only [Steady, hidle] at h
      exact put hS (h.setClock _) _ _
  | remove hidle =>
      simp only [Steady, hidle] at h
      exact remove h _
  | perform hbusy =>
      simp only [Steady, hbusy] at h
      exact h.2 _ _ (.inl rfl)
  | refuse hbusy =>
      simp only [Steady, hbusy] at h
      rcases hok with ⟨stage, op, next, hbusy', hharmless⟩
      cases hbusy.symm.trans hbusy'
      exact h.2 _ _ (.inr ⟨hharmless, ⟨_, rfl⟩, rfl⟩)
  | proceed hbusy =>
      simp only [Steady, hbusy] at h
      rcases h with ⟨-, hbalanced, hjson, hroom⟩
      exact holds_replaceEntry hbalanced hjson hroom
  | @finish stage r cache hbusy hends =>
      simp only [Steady, hbusy] at h
      cases stage with
      | evicting key entry metaJson =>
          -- an eviction that ends well is followed by the replacement
          rcases h with ⟨rfl, -⟩
          exact hends.elim
      | replacing key start =>
          exact h
      | removing =>
          exact h
  | stop =>
      exact hok.elim

end Steady

/-! ## All runs -/

/-- From a directory of complete entries, over every run in which only harmless steps are refused,
the index is in tally with the directory. -/
theorem inTally_of_harmless {S : Serde} (hS : S.NonEmpty) {files : FileStore Path}
    (hfiles : CompleteEntries files) {as : List DiskEvent} {s : DiskMachine}
    (hrun : Run (Guarded (DiskMachineStep S) HarmlessRefusals)
      { files := files, process := .stopped } as s) : InTally s := by
  have hsteady : Steady s :=
    hrun.invariant (fun _ _ _ h hstep => h.step hS hstep.1 hstep.2) hfiles
  intro cache hidle
  simp only [Steady, hidle] at hsteady
  exact hsteady.tallied

/-- A removal of a key that is not stored, all of whose steps are refused. -/
theorem inTally_of_harmless_refused :
    InTally
      { files := FileStore.empty 0
        process := .idle (afterRemove exampleKey 0 ⟨1024, 0, []⟩) } := by
  have hstart : Guarded (DiskMachineStep exampleSerde) HarmlessRefusals (.init 0) (.start 1024 [])
      { files := FileStore.empty 0, process := .idle ⟨1024, 0, []⟩ } :=
    ⟨(start_empty exampleSerde 1024 0).1, Nat.zero_le _⟩
  have hremove : Guarded (DiskMachineStep exampleSerde) HarmlessRefusals
      { files := FileStore.empty 0, process := .idle ⟨1024, 0, []⟩ } (.remove exampleKey) _ :=
    ⟨.remove rfl, trivial⟩
  have hmeasured := (Run.cons hstart (.single hremove)).snoc
    ⟨.refuse (e := FileOp.notFoundError) rfl, _, _, _, rfl, rfl⟩ |>.snoc
    ⟨.refuse (e := FileOp.notFoundError) rfl, _, _, _, rfl, rfl⟩
  have hremoved := hmeasured.snoc
    ⟨.refuse (e := FileOp.notFoundError) rfl, _, _, _, rfl, rfl⟩ |>.snoc
    ⟨.refuse (e := FileOp.notFoundError) rfl, _, _, _, rfl, rfl⟩
  exact inTally_of_harmless exampleSerde_nonEmpty (CompleteEntries.empty 0)
    (hremoved.snoc ⟨.finish rfl trivial, trivial⟩)

/-! ## An overwriting put that fails -/

/-- When the directory of an entry cannot be created after its old files are gone, their length is
counted for good. -/
theorem not_inTally_overwritten :
    ¬ ∀ (S : Serde) (now : Nat) (as : List DiskEvent) (s : DiskMachine), S.NonEmpty →
      S.RoundTrip → Run (Guarded (DiskMachineStep S) (fun _ a => a ≠ .stop)) (.init now) as s →
        InTally s := by
  intro hall
  rcases run_store_example with ⟨as, hstored⟩
  have hnoStop : ∀ s a t, FaultlessStep exampleSerde s a t →
      Guarded (DiskMachineStep exampleSerde) (fun _ a => a ≠ .stop) s a t := by
    rintro s a t ⟨hstep, hfaultless⟩
    refine ⟨hstep, ?_⟩
    rintro rfl
    exact hfaultless
  have hdata : shortEntry.data.length = 2 := rfl
  have hcounter : exampleCache.currentSize =
      (exampleText shortEntry.metadata).length + shortEntry.data.length := rfl
  have hroom : exampleCache.currentSize +
      ((exampleText shortEntry.metadata).length + shortEntry.data.length) ≤
        exampleCache.maxSize := by
    have hlen := length_exampleText_short
    simp only [exampleCache]
    omega
  have hbytes : cacheBytes exampleFiles =
      cacheBytes (FileStore.empty 0) + _ :=
    cacheBytes_saveEntry exampleKey (exampleText shortEntry.metadata) shortEntry.data rfl
  have hempty : cacheBytes (FileStore.empty 0) = 0 := rfl
  have hpair := pair_exampleFiles
  generalize exampleFiles = files at hstored hbytes hpair
  generalize exampleCache = cache at hstored hroom hcounter
  rcases run_put_cleared (s := { files := files, process := .idle cache }) 0 rfl
    exampleSerde_short hroom with ⟨bs, next, hcleared, hfailed⟩
  rcases hfailed FileOp.notFoundError with ⟨kept, hreturned, hkept⟩
  have hrefused := ((hstored.append hcleared).mono hnoStop).snoc
    ⟨.refuse (e := FileOp.notFoundError) rfl, by simp⟩
  rw [hreturned] at hrefused
  have hfinished := hrefused.snoc ⟨.finish rfl trivial, by simp⟩
  -- the counter still has the length of the old files, which are gone
  have hcounted : kept.currentSize =
      cacheBytes (dropFiles exampleKey.filePath (files.setClock 0)) :=
    (hall exampleSerde 0 _ _ exampleSerde_nonEmpty exampleSerde_roundTrip hfinished _ rfl).size
  have hmetaSize : (files.setClock 0).size exampleKey.metaPath = _ :=
    FileStore.size_of_file (congrArg Prod.fst hpair)
  have hdataSize : (files.setClock 0).size exampleKey.dataPath = _ :=
    FileStore.size_of_file (congrArg Prod.snd hpair)
  have hdropped := cacheBytes_dropFiles (s := files.setClock 0) exampleKey
  have hclock : cacheBytes (files.setClock 0) = cacheBytes files :=
    cacheBytes_congr rfl
  omega

end Cache
end Squiddish
