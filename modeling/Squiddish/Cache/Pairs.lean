import Squiddish.Cache.Cuts

/-!
# Pairs — what the directory holds before every operation of the one writer

Files are numbered in the order in which they are created, and the writer creates the data file of
an entry right after its metadata file.  So the two files of an entry are `m` and `m + 1`; the
directory is `Sound` when a data file has its own metadata beside it, and no other.
-/

namespace Squiddish
namespace Cache

open Lib

/-! ## What the directory holds -/

section Sound

variable (S : Serde) (puts : List (CacheKey × CacheEntry)) (writing : Option Nat)

/-- The metadata file `m` and the data file after it are those of an entry that was put; a data
file that is being written to may lack some of its bytes. -/
def EntryAt (key : CacheKey) (m : Nat) (s : FileStore Path) : Prop :=
  ∃ entry, WasPut puts key entry ∧ S.toVec entry.metadata = .ok (s.content m) ∧
    (writing ≠ some (m + 1) → s.content (m + 1) = entry.data)

/-- A data file has its own metadata beside it, and no other. -/
def SoundKey (key : CacheKey) (s : FileStore Path) : Prop :=
  ∀ d, s.dir key.dataPath = some d → ∃ m, d = m + 1 ∧
    (∀ f, s.dir key.metaPath = some f → f = m) ∧ EntryAt S puts writing key m s

def Sound (s : FileStore Path) : Prop :=
  ∀ key, SoundKey S puts writing key s

variable {S puts writing} {key key' : CacheKey} {s t : FileStore Path}

theorem EntryAt.congr {m : Nat} (h : EntryAt S puts writing key m s)
    (hmeta : t.content m = s.content m) (hdata : t.content (m + 1) = s.content (m + 1)) :
    EntryAt S puts writing key m t := by
  rcases h with ⟨entry, hput, hjson, hentry⟩
  refine ⟨entry, hput, ?_, ?_⟩
  · rwa [hmeta]
  · rwa [hdata]

theorem EntryAt.weaken {m : Nat} (h : EntryAt S puts none key m s) :
    EntryAt S puts writing key m s := by
  rcases h with ⟨entry, hput, hjson, hentry⟩
  exact ⟨entry, hput, hjson, fun _ => hentry (by simp)⟩

theorem EntryAt.mono {m : Nat} (h : EntryAt S puts writing key m s)
    (more : List (CacheKey × CacheEntry)) : EntryAt S (puts ++ more) writing key m s := by
  rcases h with ⟨entry, hput, hrest⟩
  rcases hput with ⟨key', hmem, hhash⟩
  exact ⟨entry, ⟨key', List.mem_append_left _ hmem, hhash⟩, hrest⟩

theorem SoundKey.of_absent (h : s.dir key.dataPath = none) : SoundKey S puts writing key s := by
  intro d hd
  rw [h] at hd
  cases hd

theorem SoundKey.weaken (h : SoundKey S puts none key s) : SoundKey S puts writing key s := by
  intro d hd
  rcases h d hd with ⟨m, hm, hmeta, hentry⟩
  exact ⟨m, hm, hmeta, hentry.weaken⟩

/-- Keys of one hash have their files in common. -/
theorem SoundKey.of_hashHex (h : SoundKey S puts writing key s)
    (hhash : key'.hashHex = key.hashHex) : SoundKey S puts writing key' s := by
  intro d hd
  rw [CacheKey.dataPath_inj.2 hhash] at hd
  rcases h d hd with ⟨m, hm, hmeta, entry, ⟨key'', hmem, hput⟩, hentry⟩
  refine ⟨m, hm, ?_, entry, ⟨key'', hmem, ?_⟩, hentry⟩
  · rwa [CacheKey.metaPath_inj.2 hhash]
  · exact hput.trans (CacheKey.hash_of_hashHex hhash).symm

theorem Sound.mono (h : Sound S puts writing s) (more : List (CacheKey × CacheEntry)) :
    Sound S (puts ++ more) writing s := by
  intro key d hd
  rcases h key d hd with ⟨m, hm, hmeta, hentry⟩
  exact ⟨m, hm, hmeta, hentry.mono more⟩

/-- An operation that neither creates a file of the key nor writes to its data keeps the key
sound. -/
theorem SoundKey.apply (h : SoundKey S puts none key s) {op : FileOp Path}
    (hwrite : ∀ f b, op = .write f b → f + 1 = s.next ∧ s.dir key.dataPath ≠ some f)
    (hcreate : ∀ p, op = .create p →
      s.dir p = none ∧ p ≠ key.metaPath ∧ p ≠ key.dataPath) :
    SoundKey S puts none key (op.apply s).2 := by
  intro d hd
  have hdir : s.dir key.dataPath = some d := by
    rcases FileOp.dir_of_dir_apply hd with hdir | ⟨hop, _⟩
    · exact hdir
    · exact absurd rfl (hcreate _ hop).2.2
  rcases h d hdir with ⟨m, rfl, hmeta, hentry⟩
  have hlt := s.dir_lt _ _ hdir
  have hnew : ∀ f p, op = .create p → s.dir p ≠ some f := by
    intro f p hop
    simp [(hcreate p hop).1]
  refine ⟨m, rfl, ?_, hentry.congr ?_ ?_⟩
  · intro f hf
    rcases FileOp.dir_of_dir_apply hf with hold | ⟨hop, _⟩
    · exact hmeta f hold
    · exact absurd rfl (hcreate _ hop).2.1
  -- only the newest file is written to, and the metadata is older than its data
  · refine FileOp.content_apply (by omega) ?_ (hnew m)
    rintro b rfl
    have hlast := (hwrite m b rfl).1
    omega
  · refine FileOp.content_apply hlt ?_ (hnew (m + 1))
    rintro b rfl
    exact (hwrite (m + 1) b rfl).2 hdir

theorem Sound.shrinks (h : Sound S puts none s) {op : FileOp Path} (hop : op.Shrinks) :
    Sound S puts none (op.apply s).2 := by
  intro key
  refine (h key).apply ?_ ?_
  · rintro f b rfl
    exact hop.elim
  · rintro p rfl
    exact hop.elim

end Sound

/-! ## The writer -/

/-- The file an operation writes to. -/
def writtenBy : FileOp Path → Option Nat
  | .write f _ => some f
  | _ => none

/-- What holds when the writer is about to call an operation: it writes to the newest file, it
creates files where there are none, and a data file right after its metadata. -/
structure AtOp (S : Serde) (puts : List (CacheKey × CacheEntry)) (op : FileOp Path)
    (s : FileStore Path) : Prop where
  sound : Sound S puts (writtenBy op) s
  write : ∀ f b, op = .write f b → f + 1 = s.next ∧ ∃ p, s.dir p = some f
  create : ∀ p, op = .create p → s.dir p = none
  createData : ∀ key : CacheKey, op = .create key.dataPath →
    ∃ m, s.dir key.metaPath = some m ∧ m + 1 = s.next

section Write

variable {S : Serde} {puts : List (CacheKey × CacheEntry)} {key : CacheKey}
  {entry : CacheEntry} {m : Nat} {written : Bytes} {s t : FileStore Path}

theorem AtOp.of_shrinks {op : FileOp Path} (hop : op.Shrinks) (h : Sound S puts none s) :
    AtOp S puts op s := by
  cases op with
  | create p =>
      exact hop.elim
  | write f b =>
      exact hop.elim
  | _ =>
      exact { sound := h, write := by simp, create := by simp, createData := by simp }

/-- A program that only looks and removes keeps the directory sound. -/
theorem Sound.holds {α : Type} (h : Sound S puts none s) {p : DiskProg α}
    (hp : p.OnlyCalls FileOp.Shrinks) :
    Prog.Holds (Prog.Does FileOp.apply) (AtOp S puts) (fun _ t => Sound S puts none t) p s := by
  induction p generalizing s with
  | ret a =>
      exact h
  | call op next ih =>
      refine ⟨.of_shrinks hp.1 h, ?_⟩
      intro r t hr
      have hr' : op.apply s = (r, t) := hr
      have ht : t = (op.apply s).2 := by
        rw [hr']
      exact ih r (ht ▸ h.shrinks hp.1) (hp.2 r)

/-- The entries of all other hashes. -/
def OthersSound (S : Serde) (puts : List (CacheKey × CacheEntry)) (key : CacheKey)
    (s : FileStore Path) : Prop :=
  ∀ key', key'.hashHex ≠ key.hashHex → SoundKey S puts none key' s

theorem OthersSound.sound {writing : Option Nat} (h : OthersSound S puts key s)
    (hkey : SoundKey S puts writing key s) : Sound S puts writing s := by
  intro key'
  by_cases hhash : key'.hashHex = key.hashHex
  · exact hkey.of_hashHex hhash
  · exact (h key' hhash).weaken

/-- Work on the files of one hash leaves the others. -/
theorem OthersSound.apply (h : OthersSound S puts key s) (op : FileOp Path)
    (hwrite : ∀ f b, op = .write f b → f + 1 = s.next ∧
      (s.dir key.metaPath = some f ∨ s.dir key.dataPath = some f))
    (hcreate : ∀ p, op = .create p →
      s.dir p = none ∧ (p = key.metaPath ∨ p = key.dataPath)) :
    OthersSound S puts key (op.apply s).2 := by
  intro key' hhash
  have hmeta : key.metaPath ≠ key'.metaPath :=
    fun heq => hhash (CacheKey.metaPath_inj.1 heq).symm
  have hdata : key.dataPath ≠ key'.dataPath :=
    fun heq => hhash (CacheKey.dataPath_inj.1 heq).symm
  refine (h key' hhash).apply ?_ ?_
  · intro f b hop
    rcases hwrite f b hop with ⟨hlast, hf | hf⟩
    -- a file has one name, so it is not the data of another key
    · exact ⟨hlast, fun hf' => CacheKey.metaPath_ne_dataPath (s.dir_inj _ _ _ hf hf')⟩
    · exact ⟨hlast, fun hf' => hdata (s.dir_inj _ _ _ hf hf')⟩
  · intro p hop
    rcases hcreate p hop with ⟨hp, rfl | rfl⟩
    · exact ⟨hp, hmeta, CacheKey.metaPath_ne_dataPath⟩
    · exact ⟨hp, CacheKey.metaPath_ne_dataPath.symm, hdata⟩

/-- So many bytes of the metadata are written, and no data file is there. -/
structure MetaOpen (S : Serde) (puts : List (CacheKey × CacheEntry)) (key : CacheKey) (m : Nat)
    (written : Bytes) (s : FileStore Path) : Prop where
  dir : s.dir key.metaPath = some m
  last : m + 1 = s.next
  content : s.content m = written
  absent : s.dir key.dataPath = none
  others : OthersSound S puts key s

theorem MetaOpen.sound {writing : Option Nat} (h : MetaOpen S puts key m written s) :
    Sound S puts writing s :=
  h.others.sound (.of_absent h.absent)

theorem MetaOpen.write (h : MetaOpen S puts key m written s) (b : UInt8) :
    MetaOpen S puts key m (written ++ [b]) (s.write m b) := by
  refine { dir := h.dir, last := h.last, content := by simp [h.content], absent := h.absent,
           others := h.others.apply (.write m b) ?_ (by simp) }
  intro f b' hop
  cases hop
  exact ⟨h.last, .inl h.dir⟩

theorem MetaOpen.link (h : Sound S puts none s) (hmeta : s.dir key.metaPath = none)
    (hdata : s.dir key.dataPath = none) :
    MetaOpen S puts key s.next [] (s.link key.metaPath) := by
  have hcreate : ((FileOp.create key.metaPath).apply s).2 = s.link key.metaPath := by
    simp [FileOp.apply, FileStore.create, hmeta]
  have hothers : OthersSound S puts key (s.link key.metaPath) := by
    rw [← hcreate]
    refine OthersSound.apply (fun key' _ => h key') (.create key.metaPath) (by simp) ?_
    intro p hop
    cases hop
    exact ⟨hmeta, .inl rfl⟩
  exact
    { dir := by simp
      last := rfl
      content := by simp
      absent := by rwa [FileStore.dir_link_of_ne CacheKey.metaPath_ne_dataPath.symm]
      others := hothers }

/-- The metadata is complete and so many bytes of the data are written. -/
structure DataOpen (S : Serde) (puts : List (CacheKey × CacheEntry)) (key : CacheKey)
    (entry : CacheEntry) (m : Nat) (written : Bytes) (s : FileStore Path) : Prop where
  metaDir : s.dir key.metaPath = some m
  dataDir : s.dir key.dataPath = some (m + 1)
  last : m + 1 + 1 = s.next
  json : S.toVec entry.metadata = .ok (s.content m)
  content : s.content (m + 1) = written
  others : OthersSound S puts key s

theorem DataOpen.sound {writing : Option Nat} (h : DataOpen S puts key entry m written s)
    (hput : WasPut puts key entry) (hwritten : writing ≠ some (m + 1) → written = entry.data) :
    Sound S puts writing s := by
  refine h.others.sound ?_
  intro d hd
  rw [h.dataDir] at hd
  cases hd
  refine ⟨m, rfl, ?_, entry, hput, h.json, ?_⟩
  · intro f hf
    rw [h.metaDir] at hf
    exact (Option.some.inj hf).symm
  -- unless it is being written to, the data is that of the entry
  · intro hwriting
    rw [h.content, hwritten hwriting]

theorem DataOpen.write (h : DataOpen S puts key entry m written s) (b : UInt8) :
    DataOpen S puts key entry m (written ++ [b]) (s.write (m + 1) b) := by
  refine { metaDir := h.metaDir, dataDir := h.dataDir, last := h.last, json := ?_,
           content := by simp [h.content],
           others := h.others.apply (.write (m + 1) b) ?_ (by simp) }
  · rw [FileStore.content_write_of_ne (by omega), h.json]
  · intro f b' hop
    cases hop
    exact ⟨h.last, .inr h.dataDir⟩

theorem MetaOpen.linkData (h : MetaOpen S puts key m written s)
    (hjson : S.toVec entry.metadata = .ok written) :
    DataOpen S puts key entry m [] (s.link key.dataPath) := by
  have hcreate : ((FileOp.create key.dataPath).apply s).2 = s.link key.dataPath := by
    simp [FileOp.apply, FileStore.create, h.absent]
  have hothers : OthersSound S puts key (s.link key.dataPath) := by
    rw [← hcreate]
    refine h.others.apply (.create key.dataPath) (by simp) ?_
    intro p hop
    cases hop
    exact ⟨h.absent, .inr rfl⟩
  have hlast := h.last
  exact
    { metaDir := by rw [FileStore.dir_link_of_ne CacheKey.metaPath_ne_dataPath, h.dir]
      dataDir := by rw [FileStore.dir_link_self, h.last]
      last := by simp [hlast]
      json := by rw [FileStore.content_link_of_lt (by omega), h.content, hjson]
      content := by rw [h.last, FileStore.content_link_next]
      others := hothers }

/-- The operations of the writer answer as the file store does. -/
theorem does_create {p : Path} {r : Except IoError Nat} (hp : s.dir p = none)
    (hr : Prog.Does FileOp.apply (.create p) s r t) : r = .ok s.next ∧ t = s.link p := by
  have hr' : FileOp.apply (.create p) s = (r, t) := hr
  simp only [FileOp.apply, FileStore.create, hp] at hr'
  cases hr'
  exact ⟨rfl, rfl⟩

theorem writeMeta_sound (h : Sound S puts none s) (hmeta : s.dir key.metaPath = none)
    (hdata : s.dir key.dataPath = none) (metaJson : Bytes) :
    Prog.Holds (Prog.Does FileOp.apply) (AtOp S puts)
      (fun r t => r = .ok () ∧ ∃ m, MetaOpen S puts key m metaJson t)
      (FileProg.writeFile key.metaPath metaJson) s := by
  refine .call ⟨h, by simp, ?_, ?_⟩ ?_
  · rintro p ⟨⟩
    exact hmeta
  · intro key' hop
    exact absurd (FileOp.create.inj hop) CacheKey.metaPath_ne_dataPath
  intro r t hr
  rcases does_create hmeta hr with ⟨rfl, rfl⟩
  refine Prog.Holds.seq (FileProg.holds_writeAll (A := MetaOpen S puts key s.next)
    (B := fun _ => False) ?_ ?_ (.link h hmeta hdata)) ?_
  · intro written b u hu
    refine ⟨hu.sound, ?_, by simp, by simp⟩
    rintro f b' ⟨⟩
    exact ⟨hu.last, _, hu.dir⟩
  · rintro written b u r v hu ⟨⟩
    exact .inl ⟨⟨(), rfl⟩, hu.write b⟩
  · rintro r u (⟨rfl, hu⟩ | ⟨_, hfalse⟩)
    · refine .call (.of_shrinks trivial hu.sound) ?_
      rintro r v ⟨⟩
      exact ⟨rfl, s.next, by simpa using hu⟩
    · exact hfalse.elim

theorem writeData_sound (hput : WasPut puts key entry) {metaJson : Bytes}
    (hjson : S.toVec entry.metadata = .ok metaJson) (h : MetaOpen S puts key m metaJson s) :
    Prog.Holds (Prog.Does FileOp.apply) (AtOp S puts)
      (fun r t => r = .ok () ∧ Sound S puts none t)
      (FileProg.writeFile key.dataPath entry.data) s := by
  refine .call ⟨h.sound, by simp, ?_, ?_⟩ ?_
  · rintro p ⟨⟩
    exact h.absent
  · intro key' hop
    -- the data file comes right after the metadata of the same hash
    have hhash := CacheKey.dataPath_inj.1 (FileOp.create.inj hop)
    exact ⟨m, by rw [← CacheKey.metaPath_inj.2 hhash, h.dir], h.last⟩
  intro r t hr
  rcases does_create h.absent hr with ⟨rfl, rfl⟩
  rw [← h.last]
  refine Prog.Holds.seq (FileProg.holds_writeAll (A := DataOpen S puts key entry m)
    (B := fun _ => False) ?_ ?_ (h.linkData hjson)) ?_
  · intro written b u hu
    -- the file is being written to, so some of its bytes may be missing
    refine ⟨hu.sound hput (fun hwriting => absurd rfl hwriting), ?_, by simp, by simp⟩
    rintro f b' ⟨⟩
    exact ⟨hu.last, _, hu.dataDir⟩
  · rintro written b u r v hu ⟨⟩
    exact .inl ⟨⟨(), rfl⟩, hu.write b⟩
  · rintro r u (⟨rfl, hu⟩ | ⟨_, hfalse⟩)
    · have hsound : Sound S puts none u := hu.sound hput (fun _ => by simp)
      refine .call (.of_shrinks trivial hsound) ?_
      rintro r v ⟨⟩
      exact ⟨rfl, hsound⟩
    · exact hfalse.elim

theorem writeEntry_sound (h : Sound S puts none s) (hmeta : s.dir key.metaPath = none)
    (hdata : s.dir key.dataPath = none) (hput : WasPut puts key entry) {metaJson : Bytes}
    (hjson : S.toVec entry.metadata = .ok metaJson) :
    Prog.Holds (Prog.Does FileOp.apply) (AtOp S puts) (fun _ t => Sound S puts none t)
      (writeEntry key entry metaJson) s := by
  refine .call (.of_shrinks trivial h) ?_
  rintro r t ⟨⟩
  refine Prog.Holds.seq (writeMeta_sound h hmeta hdata metaJson) ?_
  rintro r u ⟨rfl, m, hu⟩
  refine Prog.Holds.seq (writeData_sound hput hjson hu) ?_
  rintro r v ⟨rfl, hv⟩
  exact hv

/-- After a removal neither file of the key is there. -/
theorem removeEntry_sound (key : CacheKey) (h : Sound S puts none s) :
    Prog.Holds (Prog.Does FileOp.apply) (AtOp S puts)
      (fun _ t => Sound S puts none t ∧
        t.dir key.metaPath = none ∧ t.dir key.dataPath = none) (removeEntry key) s := by
  refine (h.holds (removeFiles_shrinks key.filePath)).and_exec.imp ?_
  rintro oldSize t ⟨ht, hexec⟩
  have hremove := perform_removeEntry key s
  simp only [perform] at hremove
  have hstore : t = dropFiles key.filePath s := by
    have hboth := hexec.symm.trans hremove
    exact congrArg Prod.snd hboth
  have hpair := pair_dropFiles_self key s
  rw [← hstore] at hpair
  refine ⟨ht, ?_, ?_⟩
  · exact FileStore.file_eq_none.1 (congrArg Prod.fst hpair)
  · exact FileStore.file_eq_none.1 (congrArg Prod.snd hpair)

/-- Before each operation of a put the directory is sound, but for the data file it writes to. -/
theorem put_sound (h : Sound S puts none s) (hput : WasPut puts key entry) (cache : DiskCache) :
    Prog.Holds (Prog.Does FileOp.apply) (AtOp S puts) (fun _ t => Sound S puts none t)
      (DiskCache.put S key entry cache) s := by
  unfold DiskCache.put
  split
  · exact h
  · rename_i metaJson hjson
    dsimp only
    split
    · exact h
    · refine Prog.Holds.seq (h.holds (evictIfNeeded_shrinks _ _)) ?_
      rintro ⟨r, cache'⟩ t ht
      cases r with
      | error e =>
          exact ht
      | ok _ =>
          refine Prog.Holds.seq (removeEntry_sound key ht) ?_
          rintro oldSize u ⟨hu, hmeta, hdata⟩
          refine Prog.Holds.seq (writeEntry_sound hu hmeta hdata hput hjson) ?_
          intro r v hv
          cases r with
          | error e =>
              exact hv
          | ok _ =>
              exact hv

end Write

end Cache
end Squiddish
