import Squiddish.Cache.Lookups

/-!
# Copies — where an entry that is found comes from

Entries are copied from a put into the tiers, from a tier into a get, and from the disk back into
memory.  `HoldsOnly S P t` says that the hash and the head of every copy in `t` satisfy `P`, and so
do those of whatever the disk would answer.  Every step keeps it that puts no other entry, and so
does a process that stops between any two steps of a write.
-/

namespace Squiddish
namespace Cache

open Lib

/-! ## Heads -/

/-- An entry without its data. -/
structure EntryHead where
  headers : List (Str × Str)
  status : Nat
  timestamp : Nat
  ttlSeconds : Nat
  deriving DecidableEq, Repr

def CacheEntry.head (entry : CacheEntry) : EntryHead where
  headers := entry.headers
  status := entry.status
  timestamp := entry.timestamp
  ttlSeconds := entry.ttlSeconds

/-- What is read beside the metadata of an entry has its head. -/
theorem head_of_readPair {S : Serde} (hS : S.RoundTrip) {entry found : CacheEntry}
    {metaJson data : Bytes} (hjson : S.toVec entry.metadata = .ok metaJson)
    (h : readPair S (some metaJson, some data) = .ok (some found)) : found.head = entry.head := by
  have hread : readPair S (some metaJson, some data) = readBuffer entry.metadata data := by
    simp [readPair, hS _ _ hjson]
  have hsize : entry.metadata.dataSize < 2 ^ 63 := entry.data_lt
  rw [hread, readBuffer, if_pos hsize] at h
  by_cases hdata : data.length < 2 ^ 63
  · rw [dif_pos hdata] at h
    cases h
    rfl
  · rw [dif_neg hdata] at h
    cases h

/-- An entry is read only where both files are there. -/
theorem exists_of_readPair {S : Serde} {files : Option Bytes × Option Bytes} {entry : CacheEntry}
    (h : readPair S files = .ok (some entry)) :
    ∃ metaJson data, files = (some metaJson, some data) := by
  rcases files with ⟨_ | metaJson, _ | data⟩
  · rw [readPair_of_missing S (Or.inl rfl)] at h
    cases h
  · rw [readPair_of_missing S (Or.inl rfl)] at h
    cases h
  · rw [readPair_of_missing S (Or.inr rfl)] at h
    cases h
  · exact ⟨metaJson, data, rfl⟩

/-! ## The disk -/

/-- Whatever a get of the disk finds has a head that satisfies `P` for its hash. -/
def DiskHoldsOnly (S : Serde) (P : Str → EntryHead → Prop) (files : FileStore Path) : Prop :=
  ∀ key entry, readPair S (pair files key) = .ok (some entry) → P key.hashHex entry.head

/-- What a put over no data has made of the files, wherever it is cut. -/
structure PartlyWritten (key : CacheKey) (metaJson : Bytes) (s t : FileStore Path) : Prop where
  others : ∀ q, q ≠ key.metaPath → q ≠ key.dataPath → t.file q = s.file q
  data : t.file key.dataPath = none ∨ t.file key.metaPath = some metaJson

section Disk

variable {S : Serde} {P P' : Str → EntryHead → Prop} {s t u : FileStore Path} {key : CacheKey}

/-! ### Where a write may be cut -/

/-- Wherever the write of an entry is cut, its data is not there or its metadata is complete. -/
theorem writeEntry_partlyWritten (hdata : s.file key.dataPath = none) (entry : CacheEntry)
    (metaJson : Bytes) :
    Prog.Holds (Prog.Does FileOp.apply) (fun _ t => PartlyWritten key metaJson s t)
      (fun _ t => PartlyWritten key metaJson s t) (writeEntry key entry metaJson) s := by
  have hne : key.metaPath ≠ key.dataPath :=
    CacheKey.metaPath_ne_dataPath
  refine .call ⟨fun _ _ _ => rfl, Or.inl hdata⟩ ?_
  rintro r t hcreate
  cases hcreate
  -- while the metadata is written there is no data
  refine Prog.Holds.seq ((FileProg.holds_writeFile key.metaPath metaJson s).mono ?_
    (fun _ _ h => h)) ?_
  · intro op t hothers
    exact ⟨fun q hq _ => hothers q hq, Or.inl ((hothers _ hne.symm).trans hdata)⟩
  · rintro r t ⟨rfl, rfl⟩
    have hsaved : ∀ u : FileStore Path,
        (∀ q, q ≠ key.dataPath → u.file q = (s.save key.metaPath metaJson).file q) →
        PartlyWritten key metaJson s u := by
      intro u hothers
      refine ⟨fun q hq hq' => ?_, Or.inr ?_⟩
      · rw [hothers q hq', FileStore.file_save_of_ne metaJson hq]
      · rw [hothers _ hne, FileStore.file_save_self]
    refine Prog.Holds.seq ((FileProg.holds_writeFile key.dataPath entry.data _).mono
      (fun _ u => hsaved u) (fun _ _ h => h)) ?_
    rintro r t ⟨rfl, rfl⟩
    exact hsaved _ (fun q hq => FileStore.file_save_of_ne entry.data hq)

/-! ### What is kept wherever an operation is cut -/

namespace DiskHoldsOnly

theorem empty (now : Nat) : DiskHoldsOnly S P (FileStore.empty now) := by
  intro key entry h
  cases h

theorem mono (h : DiskHoldsOnly S P s) (hle : ∀ hash head, P hash head → P' hash head) :
    DiskHoldsOnly S P' s :=
  fun key entry hread => hle _ _ (h key entry hread)

/-- Files may be gone. -/
theorem of_files (h : DiskHoldsOnly S P s)
    (hfiles : ∀ p bytes, t.file p = some bytes → s.file p = some bytes) :
    DiskHoldsOnly S P t := by
  intro key entry hread
  obtain ⟨metaJson, data, hpair⟩ := exists_of_readPair hread
  have hsame : pair s key = pair t key := by
    rw [hpair]
    refine Prod.ext ?_ ?_
    · exact hfiles _ _ (congrArg Prod.fst hpair)
    · exact hfiles _ _ (congrArg Prod.snd hpair)
  exact h key entry (hsame ▸ hread)

theorem setClock (h : DiskHoldsOnly S P s) (now : Nat) : DiskHoldsOnly S P (s.setClock now) :=
  h.of_files (fun p bytes hp => by rwa [FileStore.file_setClock] at hp)

/-- Wherever a program is cut that only looks and removes. -/
theorem holds_of_shrinks {α : Type} (h : DiskHoldsOnly S P s) {p : DiskProg α}
    (hp : p.OnlyCalls FileOp.Shrinks) :
    Prog.Holds (Prog.Does FileOp.apply) (fun _ t => DiskHoldsOnly S P t)
      (fun _ t => DiskHoldsOnly S P t) p s := by
  refine Prog.Holds.of_onlyCalls ?_ hp h
  intro op t r u hop ht hr
  have hu : u = (op.apply t).2 := (congrArg Prod.snd hr).symm
  subst hu
  exact ht.of_files (fun p bytes hfile => hop.file hfile)

theorem partlyWritten (h : DiskHoldsOnly S P s) (hS : S.RoundTrip) {entry : CacheEntry}
    {metaJson : Bytes} (hP : P key.hashHex entry.head)
    (hjson : S.toVec entry.metadata = .ok metaJson) (hpart : PartlyWritten key metaJson s t) :
    DiskHoldsOnly S P t := by
  intro key' found hread
  by_cases hhash : key'.hashHex = key.hashHex
  · obtain ⟨metaJson', data, hpair⟩ := exists_of_readPair hread
    rw [pair, CacheKey.metaPath_inj.2 hhash, CacheKey.dataPath_inj.2 hhash] at hpair
    have hdata : t.file key.dataPath = some data := congrArg Prod.snd hpair
    -- both files are there, so the metadata is that of the entry
    have hmeta : t.file key.metaPath = some metaJson := by
      rcases hpart.data with hnone | hmeta
      · rw [hnone] at hdata
        cases hdata
      · exact hmeta
    rw [pair, CacheKey.metaPath_inj.2 hhash, CacheKey.dataPath_inj.2 hhash, hmeta, hdata] at hread
    rw [hhash, head_of_readPair hS hjson hread]
    exact hP
  · rw [pair_of_agree hhash hpart.others] at hread
    exact h key' found hread

theorem holds_put (h : DiskHoldsOnly S P s) (hS : S.RoundTrip) {entry : CacheEntry}
    (hP : P key.hashHex entry.head) (cache : DiskCache) :
    Prog.Holds (Prog.Does FileOp.apply) (fun _ t => DiskHoldsOnly S P t)
      (fun _ t => DiskHoldsOnly S P t) (DiskCache.put S key entry cache) s := by
  unfold DiskCache.put
  split
  · exact h
  · rename_i metaJson hjson
    dsimp only
    split
    · exact h
    · refine Prog.Holds.seq (h.holds_of_shrinks (evictIfNeeded_shrinks _ _)) ?_
      rintro ⟨r, cache'⟩ t ht
      cases r with
      | error e =>
          exact ht
      | ok _ =>
          have hremoved := (ht.holds_of_shrinks (removeFiles_shrinks key.filePath)).and_exec
          refine Prog.Holds.seq hremoved ?_
          rintro oldSize u ⟨hu, hexec⟩
          -- the files of the key are gone before the first of them is written
          have hdata : u.file key.dataPath = none := by
            have hpair := pair_dropFiles_self key t
            have hdrop : u = dropFiles key.filePath t :=
              (congrArg Prod.snd hexec).symm.trans
                (congrArg Prod.snd (perform_removeFiles key.filePath t))
            rw [hdrop]
            exact congrArg Prod.snd hpair
          have hwrite := writeEntry_partlyWritten hdata entry metaJson
          refine Prog.Holds.seq (hwrite.mono (fun _ _ hv => hu.partlyWritten hS hP hjson hv)
            (fun _ _ hv => hu.partlyWritten hS hP hjson hv)) ?_
          intro r v hv
          cases r with
          | error e =>
              exact hv
          | ok _ =>
              exact hv

theorem holds_remove (h : DiskHoldsOnly S P s) (key : CacheKey) (cache : DiskCache) :
    Prog.Holds (Prog.Does FileOp.apply) (fun _ t => DiskHoldsOnly S P t)
      (fun _ t => DiskHoldsOnly S P t) (DiskCache.remove key cache) s := by
  refine Prog.Holds.seq (h.holds_of_shrinks (removeFiles_shrinks key.filePath)) ?_
  intro r t ht
  exact ht

/-- What the disk answers. -/
theorem get (h : DiskHoldsOnly S P s) {entry : CacheEntry}
    (hget : (perform (DiskCache.get S key) s).1 = .ok (some entry)) : P key.hashHex entry.head := by
  rw [get_eq_readPair] at hget
  exact h key entry hget

end DiskHoldsOnly

end Disk

/-! ## All copies -/

/-- The copy a get has still to act on or to answer with. -/
def GetPhase.copy : GetPhase → Option CacheEntry
  | .promoting entry _ _ => some entry
  | _ => none

theorem copy_afterMemoryGet (found : Option CacheEntry) (time now : Nat) :
    (afterMemoryGet found time now).copy = none := by
  cases found with
  | none =>
      rfl
  | some entry =>
      cases hexpired : entry.isExpired time <;> simp [afterMemoryGet, hexpired, GetPhase.copy]

/-- Only what the disk answered is copied into memory. -/
theorem eq_of_copy_afterDiskGet {r : Outcome (Option CacheEntry)} {time put now : Nat}
    {entry : CacheEntry} (h : (afterDiskGet r time put now).copy = some entry) :
    r = .ok (some entry) := by
  rcases r with e | _ | found
  · cases h
  · cases h
  · cases hexpired : found.isExpired time with
    | true =>
        simp [afterDiskGet, hexpired, GetPhase.copy] at h
    | false =>
        simpa [afterDiskGet, hexpired, GetPhase.copy] using h

/-- The head of every copy satisfies `P`. -/
structure HoldsOnly (S : Serde) (P : Str → EntryHead → Prop) (t : Traffic) : Prop where
  memory : ∀ key entry, t.memory key = some entry → P key.hashHex entry.head
  gets : ∀ id get, t.gets id = some get → ∀ entry, get.phase.copy = some entry →
    P get.key.hashHex entry.head
  puts : ∀ id put, t.puts id = some put → P put.key.hashHex put.entry.head
  disk : DiskHoldsOnly S P t.disk.files

/-- The entry a step brings in, with its key. -/
def TrafficAction.brings : TrafficAction → Option (CacheKey × CacheEntry)
  | .put _ key entry => some (key, entry)
  | _ => none

section Step

variable {S : Serde} {P P' : Str → EntryHead → Prop} {s t : Traffic} {a : TrafficAction}

namespace HoldsOnly

theorem init {disk : OpenCache} (h : DiskHoldsOnly S P disk.files) :
    HoldsOnly S P (Traffic.init (fun _ => none) disk) where
  memory := by simp [Traffic.init]
  gets := by simp [Traffic.init]
  puts := by simp [Traffic.init]
  disk := h

theorem mono (h : HoldsOnly S P s) (hle : ∀ hash head, P hash head → P' hash head) :
    HoldsOnly S P' s where
  memory := fun key entry hmem => hle _ _ (h.memory key entry hmem)
  gets := fun id get hget entry hcopy => hle _ _ (h.gets id get hget entry hcopy)
  puts := fun id put hput => hle _ _ (h.puts id put hput)
  disk := h.disk.mono hle

theorem setGet (h : HoldsOnly S P s) (id : Nat) {get : Option PendingGet}
    (hget : ∀ g, get = some g → ∀ entry, g.phase.copy = some entry →
      P g.key.hashHex entry.head) :
    HoldsOnly S P (s.setGet id get) :=
  { h with
    gets := by
      intro id' g hg
      rcases Traffic.gets_setGet hg with ⟨-, hnew⟩ | ⟨-, hold⟩
      · exact hget g hnew
      · exact h.gets id' g hold }

theorem setPut (h : HoldsOnly S P s) (id : Nat) {put : Option PendingPut}
    (hput : ∀ p, put = some p → P p.key.hashHex p.entry.head) : HoldsOnly S P (s.setPut id put) :=
  { h with
    puts := by
      intro id' p hp
      by_cases hid : id' = id
      · subst hid
        exact hput p (by simpa [Traffic.setPut] using hp)
      · exact h.puts id' p (by simpa [Traffic.setPut, hid] using hp) }

theorem forget (h : HoldsOnly S P s) (key : CacheKey) : HoldsOnly S P (s.forget key) :=
  { h with
    memory := by
      intro key' entry hmem
      by_cases hkey : key' = key
      · simp [Traffic.forget, hkey] at hmem
      · exact h.memory key' entry (by simpa [Traffic.forget, hkey] using hmem) }

theorem remember (h : HoldsOnly S P s) {key : CacheKey} {entry : CacheEntry}
    (hP : P key.hashHex entry.head) (put : Nat) : HoldsOnly S P (s.remember key entry put) :=
  { h with
    memory := by
      intro key' entry' hmem
      by_cases hkey : key' = key
      · have heq : entry = entry' := by
          simpa [Traffic.remember, hkey] using hmem
        exact hkey ▸ heq ▸ hP
      · exact h.memory key' entry' (by simpa [Traffic.remember, hkey] using hmem) }

theorem setDisk (h : HoldsOnly S P s) {disk : OpenCache} {diskPut : Str → Nat}
    (hdisk : DiskHoldsOnly S P disk.files) :
    HoldsOnly S P { s with disk := disk, diskPut := diskPut } :=
  { h with disk := hdisk }

/-- What every step keeps that brings in no other entry. -/
theorem step (h : HoldsOnly S P s) (hS : S.RoundTrip) (hstep : TrafficStep S s a t)
    (hbrings : ∀ key entry, a.brings = some (key, entry) → P key.hashHex entry.head) :
    HoldsOnly S P t := by
  cases hstep with
  | get _ =>
      exact h.setGet _ (by simp [GetPhase.copy])
  | memoryGet _ =>
      refine h.setGet _ ?_
      intro g hg entry hcopy
      cases hg
      rw [copy_afterMemoryGet] at hcopy
      cases hcopy
  | memoryRemove _ =>
      exact (h.forget _).setGet _ (by simp [GetPhase.copy])
  | diskGet _ =>
      refine h.setGet _ ?_
      intro g hg entry hcopy
      cases hg
      exact h.disk.get (eq_of_copy_afterDiskGet hcopy)
  | promote hget =>
      have hcopy := h.gets _ _ hget _ rfl
      exact (h.remember hcopy _).setGet _ (by simp [GetPhase.copy])
  | @diskRemove id taken key entry r disk _ hexec =>
      have hdisk := (h.disk.holds_remove key s.disk.cache).exec
      rw [← perform, hexec] at hdisk
      exact (h.setDisk hdisk).setGet _ (by simp [GetPhase.copy])
  | put _ =>
      exact h.setPut _ (by simpa using hbrings _ _ rfl)
  | @diskPut id key entry r disk hput hexec =>
      have hdisk := (h.disk.holds_put hS (h.puts _ _ hput) s.disk.cache).exec
      rw [← perform, hexec] at hdisk
      exact (h.setDisk hdisk).setPut _ (by simpa using h.puts _ _ hput)
  | memoryPut hput =>
      exact (h.remember (h.puts _ _ hput) _).setPut _ (by simpa using h.puts _ _ hput)
  | evict =>
      exact h.forget _
  | cancel =>
      exact h.setGet _ (by simp)

end HoldsOnly

/-- The files a process may leave behind: no operation is under way, or a put or a removal has been
cut between two of its steps. -/
inductive Leaves (S : Serde) (t : Traffic) : FileStore Path → Prop
  | idle : Leaves S t t.disk.files
  | put {id : Nat} {key : CacheKey} {entry : CacheEntry} {files : FileStore Path}
      {rest : DiskProg (Outcome Unit × DiskCache)} :
      t.puts id = some ⟨key, entry, .disk⟩ →
      Relation.ReflTransGen (Prog.Step (Prog.Does FileOp.apply))
        (DiskCache.put S key entry t.disk.cache, t.disk.files) (rest, files) →
      Leaves S t files
  | remove {id taken : Nat} {key : CacheKey} {entry : CacheEntry} {files : FileStore Path}
      {rest : DiskProg (Outcome Unit × DiskCache)} :
      t.gets id = some ⟨key, .expiredDisk entry taken⟩ →
      Relation.ReflTransGen (Prog.Step (Prog.Does FileOp.apply))
        (DiskCache.remove key t.disk.cache, t.disk.files) (rest, files) →
      Leaves S t files

theorem HoldsOnly.leaves (h : HoldsOnly S P s) (hS : S.RoundTrip) {files : FileStore Path}
    (hleft : Leaves S s files) : DiskHoldsOnly S P files := by
  cases hleft with
  | idle =>
      exact h.disk
  | put hput hsteps =>
      exact (h.disk.holds_put hS (h.puts _ _ hput) s.disk.cache).of_steps hsteps
  | @remove _ _ key _ _ _ _ hsteps =>
      exact (h.disk.holds_remove key s.disk.cache).of_steps hsteps

end Step

end Cache
end Squiddish
