import Squiddish.Cache.Machine

/-!
# Cuts — what the directory holds wherever a call is cut

The directory is `Intact` when no key has two files that are not those of an entry that was put.
For every function of the cache: whichever of its steps are refused or never come, the directory
is intact, or the put that is under way is exposed at this point.
-/

namespace Squiddish
namespace Cache

open Lib

/-! ## What every step of a call keeps -/

/-- An operation is performed, at any time of day, or refused where this is allowed. -/
def Performs (allowed : FileOp Path → FileStore Path → Prop) (op : FileOp Path)
    (s : FileStore Path) (r : op.Resp) (t : FileStore Path) : Prop :=
  (∃ now, op.apply (s.setClock now) = (r, t)) ∨ (op.Refused s r t ∧ allowed op s)

section Intact

variable (S : Serde) (puts : List (CacheKey × CacheEntry))

/-- When both files of the key are there, they are those of an entry that was put. -/
def IntactKey (key : CacheKey) (s : FileStore Path) : Prop :=
  ∀ metaJson data, pair s key = (some metaJson, some data) →
    ∃ entry, WasPut puts key entry ∧ S.toVec entry.metadata = .ok metaJson ∧ data = entry.data

def Intact (s : FileStore Path) : Prop :=
  ∀ key, IntactKey S puts key s

variable {S puts} {s t : FileStore Path} {allowed : FileOp Path → FileStore Path → Prop}

theorem IntactKey.of_absent {key : CacheKey} (h : s.file key.dataPath = none) :
    IntactKey S puts key s := by
  intro metaJson data hpair
  have hdata : s.file key.dataPath = some data := congrArg Prod.snd hpair
  rw [h] at hdata
  cases hdata

theorem IntactKey.of_files {key : CacheKey} (h : IntactKey S puts key s)
    (hfiles : ∀ p bytes, t.file p = some bytes → s.file p = some bytes) :
    IntactKey S puts key t := by
  intro metaJson data hpair
  refine h metaJson data (Prod.ext ?_ ?_)
  · exact hfiles _ _ (congrArg Prod.fst hpair)
  · exact hfiles _ _ (congrArg Prod.snd hpair)

theorem Intact.shrinks (h : Intact S puts s) {op : FileOp Path} (hop : op.Shrinks) {r : op.Resp}
    (hr : Performs allowed op s r t) : Intact S puts t := by
  rcases hr with ⟨now, happly⟩ | ⟨⟨_, rfl⟩, _⟩
  · intro key
    refine (h key).of_files ?_
    intro p bytes hp
    have hp' : (op.apply (s.setClock now)).2.file p = some bytes := by
      rwa [happly]
    simpa using hop.file hp'
  · exact h

/-- A program that only looks and removes keeps the directory intact wherever it is cut. -/
theorem Intact.holds {α : Type} (h : Intact S puts s)
    {I : FileOp Path → FileStore Path → Prop} (hI : ∀ op t, Intact S puts t → I op t)
    {p : DiskProg α} (hp : p.OnlyCalls FileOp.Shrinks) :
    Prog.Holds (Performs allowed) I (fun _ t => Intact S puts t) p s :=
  (Prog.Holds.of_onlyCalls (fun _ _ _ _ hop hs hr => hs.shrinks hop hr) hp h).mono
    (fun op t ht => hI op t ht) (fun _ _ ht => ht)

end Intact

/-! ## Reading -/

/-- Nothing but the time of day is different. -/
def SameFiles (s t : FileStore Path) : Prop :=
  t.dir = s.dir ∧ t.content = s.content

theorem SameFiles.trans {s t u : FileStore Path} (h : SameFiles s t) (h' : SameFiles t u) :
    SameFiles s u :=
  ⟨h'.1.trans h.1, h'.2.trans h.2⟩

theorem Intact.sameFiles {S : Serde} {puts : List (CacheKey × CacheEntry)}
    {s t : FileStore Path} (h : Intact S puts s) (hsame : SameFiles s t) : Intact S puts t := by
  have hfile : t.file = s.file := by
    funext p
    rw [FileStore.file, FileStore.file, hsame.1, hsame.2]
  intro key
  refine (h key).of_files ?_
  intro p bytes hp
  rwa [hfile] at hp

section Read

variable {allowed : FileOp Path → FileStore Path → Prop} {s t : FileStore Path}

theorem performs_openFile {p : Path} {r : Except IoError Nat}
    (h : Performs allowed (.openFile p) s r t) :
    SameFiles s t ∧ ((∃ f, s.dir p = some f ∧ r = .ok f) ∨
      (s.dir p = none ∧ r = .error FileOp.notFoundError) ∨
      ((∃ e, r = .error e) ∧ ∃ op s, allowed op s)) := by
  rcases h with ⟨now, happly⟩ | ⟨⟨herr, rfl⟩, hallowed⟩
  · rcases FileOp.apply_openFile happly with ⟨rfl, hopened | habsent⟩
    · exact ⟨⟨rfl, rfl⟩, .inl hopened⟩
    · exact ⟨⟨rfl, rfl⟩, .inr (.inl habsent)⟩
  · exact ⟨⟨rfl, rfl⟩, .inr (.inr ⟨herr, _, _, hallowed⟩)⟩

theorem performs_readToEnd {f : Nat} {r : Except IoError Bytes}
    (h : Performs allowed (.readToEnd f) s r t) :
    SameFiles s t ∧ (r = .ok (s.content f) ∨ ((∃ e, r = .error e) ∧ ∃ op s, allowed op s)) := by
  rcases h with ⟨now, happly⟩ | ⟨⟨herr, rfl⟩, hallowed⟩
  · cases happly
    exact ⟨⟨rfl, rfl⟩, .inl rfl⟩
  · exact ⟨⟨rfl, rfl⟩, .inr ⟨herr, _, _, hallowed⟩⟩

variable {S : Serde} {puts : List (CacheKey × CacheEntry)} {key : CacheKey}

/-- What a get may answer: an entry only if it was put, and a failure only if a step of it may be
refused. -/
def GoodFind (puts : List (CacheKey × CacheEntry)) (key : CacheKey)
    (allowed : FileOp Path → FileStore Path → Prop) (r : Outcome (Option CacheEntry)) : Prop :=
  (∀ entry, r = .ok (some entry) → WasPut puts key entry) ∧
    ((∀ op s, ¬ allowed op s) → ∃ found, r = .ok found)

theorem GoodFind.none : GoodFind puts key allowed (.ok none) :=
  ⟨by simp, fun _ => ⟨_, rfl⟩⟩

theorem GoodFind.refused {e : Failure} (h : ∃ op s, allowed op s) :
    GoodFind puts key allowed (.error e) := by
  refine ⟨by simp, ?_⟩
  intro hnone
  rcases h with ⟨op, s, hallowed⟩
  exact absurd hallowed (hnone op s)

theorem GoodFind.openFailure (e : IoError) (h : ∃ op s, allowed op s) :
    GoodFind puts key allowed (openFailure e) := by
  by_cases hfound : e.notFound = true
  · simpa [Cache.openFailure, hfound] using GoodFind.none
  · simpa [Cache.openFailure, hfound] using GoodFind.refused h

theorem readData_holds (h : Intact S puts s) {entry : CacheEntry} (hput : WasPut puts key entry)
    {dataFile : Nat} (hdata : s.content dataFile = entry.data) :
    Prog.Holds (Performs allowed) (fun _ t => Intact S puts t)
      (fun r t => Intact S puts t ∧ GoodFind puts key allowed r)
      (readData entry.metadata dataFile) s := by
  have hsize : entry.metadata.dataSize < 2 ^ 63 := entry.data_lt
  rw [readData, if_pos hsize]
  refine .call h ?_
  intro r t hr
  rcases performs_readToEnd hr with ⟨hsame, rfl | ⟨⟨e, rfl⟩, hallowed⟩⟩
  · have hlen : (s.content dataFile).length < 2 ^ 63 := hdata ▸ entry.data_lt
    show Prog.Holds _ _ _ (if hdata : (s.content dataFile).length < 2 ^ 63 then _ else _) t
    rw [dif_pos hlen, entryOf_metadata hdata]
    -- metadata and data are those of one entry, so the entry is put together again
    refine ⟨h.sameFiles hsame, ?_, fun _ => ⟨_, rfl⟩⟩
    intro found heq
    cases heq
    exact hput
  · exact ⟨h.sameFiles hsame, GoodFind.refused hallowed⟩

theorem readMetadata_holds (hS : S.RoundTrip) (h : Intact S puts s) {entry : CacheEntry}
    (hput : WasPut puts key entry) {metaFile dataFile : Nat}
    (hjson : S.toVec entry.metadata = .ok (s.content metaFile))
    (hdata : s.content dataFile = entry.data) :
    Prog.Holds (Performs allowed) (fun _ t => Intact S puts t)
      (fun r t => Intact S puts t ∧ GoodFind puts key allowed r)
      (readMetadata S metaFile dataFile) s := by
  refine .call h ?_
  intro r t hr
  rcases performs_readToEnd hr with ⟨hsame, rfl | ⟨⟨e, rfl⟩, hallowed⟩⟩
  · have hback := hS _ _ hjson
    simp only [hback]
    exact readData_holds (h.sameFiles hsame) hput (by rw [hsame.2, hdata])
  · exact ⟨h.sameFiles hsame, GoodFind.refused hallowed⟩

theorem get_holds (hS : S.RoundTrip) (h : Intact S puts s) :
    Prog.Holds (Performs allowed) (fun _ t => Intact S puts t)
      (fun r t => Intact S puts t ∧ GoodFind puts key allowed r) (DiskCache.get S key) s := by
  refine .call h ?_
  intro r t hr
  rcases performs_openFile hr with ⟨hsame, ⟨m, hm, rfl⟩ | ⟨_, rfl⟩ | ⟨⟨e, rfl⟩, hallowed⟩⟩
  · refine .call (h.sameFiles hsame) ?_
    intro r u hr'
    rcases performs_openFile hr' with
      ⟨hsame', ⟨d, hd, rfl⟩ | ⟨_, rfl⟩ | ⟨⟨e, rfl⟩, hallowed⟩⟩
    · have hsame₂ := hsame.trans hsame'
      have hd' : s.dir key.dataPath = some d := by
        rwa [hsame.1] at hd
      -- nothing has changed between the two opens: both files are there at one moment
      have hpair : pair s key = (some (s.content m), some (s.content d)) := by
        rw [pair, FileStore.file_of_dir hm, FileStore.file_of_dir hd']
      rcases h key _ _ hpair with ⟨entry, hput, hjson, hdata⟩
      refine readMetadata_holds hS (h.sameFiles hsame₂) hput ?_ ?_
      · rwa [hsame₂.2]
      · rwa [hsame₂.2]
    · exact ⟨h.sameFiles (hsame.trans hsame'), GoodFind.none⟩
    · exact ⟨h.sameFiles (hsame.trans hsame'), GoodFind.openFailure e hallowed⟩
  · exact ⟨h.sameFiles hsame, GoodFind.none⟩
  · exact ⟨h.sameFiles hsame, GoodFind.openFailure e hallowed⟩

end Read

/-! ## Writing -/

section Performs

variable {allowed : FileOp Path → FileStore Path → Prop} {s t : FileStore Path}

theorem performs_create {p : Path} {r : Except IoError Nat}
    (h : Performs allowed (.create p) s r t) :
    (∃ f, r = .ok f ∧ t.dir p = some f ∧ t.content f = [] ∧ ∀ q, q ≠ p → t.file q = s.file q) ∨
      ((∃ e, r = .error e) ∧ t = s ∧ allowed (.create p) s) := by
  rcases h with ⟨now, happly⟩ | ⟨⟨herr, rfl⟩, hallowed⟩
  · cases happly
    refine .inl ⟨_, rfl, FileStore.dir_create_self, FileStore.content_create_self, ?_⟩
    intro q hq
    rw [FileStore.file_create_of_ne hq, FileStore.file_setClock]
  · exact .inr ⟨herr, rfl, hallowed⟩

theorem performs_write {p : Path} {f : Nat} {b : UInt8} {r : Except IoError Unit}
    (h : Performs allowed (.write f b) s r t) (hp : s.dir p = some f) :
    ((∃ u, r = .ok u) ∧ t.dir = s.dir ∧ t.content f = s.content f ++ [b] ∧
        ∀ q, q ≠ p → t.file q = s.file q) ∨
      ((∃ e, r = .error e) ∧ t = s ∧ allowed (.write f b) s) := by
  rcases h with ⟨now, happly⟩ | ⟨⟨herr, rfl⟩, hallowed⟩
  · cases happly
    refine .inl ⟨⟨(), rfl⟩, rfl, by simp, ?_⟩
    intro q hq
    have hfile := FileStore.file_writeAll_of_ne (s := s.setClock now) [b] hp hq
    rwa [FileStore.file_setClock] at hfile
  · exact .inr ⟨herr, rfl, hallowed⟩

/-- Flushing a file and creating directories leave all files as they are. -/
theorem performs_same {op : FileOp Path} (hop : ∀ u : FileStore Path, (op.apply u).2 = u)
    {r : op.Resp} (h : Performs allowed op s r t) :
    SameFiles s t ∧ ((∃ now, r = (op.apply (s.setClock now)).1) ∨
      ((∃ e, r = .error e) ∧ t = s ∧ allowed op s)) := by
  rcases h with ⟨now, happly⟩ | ⟨⟨herr, rfl⟩, hallowed⟩
  · have ht : s.setClock now = t := by
      rw [← hop (s.setClock now), happly]
    rw [← ht]
    exact ⟨⟨rfl, rfl⟩, .inl ⟨now, by rw [happly]⟩⟩
  · exact ⟨⟨rfl, rfl⟩, .inr ⟨herr, rfl, hallowed⟩⟩

theorem SameFiles.file (h : SameFiles s t) (p : Path) : t.file p = s.file p := by
  rw [FileStore.file, FileStore.file, h.1, h.2]

end Performs

section Write

variable {S : Serde} {puts : List (CacheKey × CacheEntry)} {key : CacheKey}
  {s t : FileStore Path}

/-- The entries of all other hashes are intact. -/
def OthersIntact (S : Serde) (puts : List (CacheKey × CacheEntry)) (key : CacheKey)
    (s : FileStore Path) : Prop :=
  ∀ key', key'.hashHex ≠ key.hashHex → IntactKey S puts key' s

theorem Intact.others (h : Intact S puts s) : OthersIntact S puts key s :=
  fun key' _ => h key'

theorem OthersIntact.intact (h : OthersIntact S puts key s) (hkey : IntactKey S puts key s) :
    Intact S puts s := by
  intro key' metaJson data hpair
  by_cases hhash : key'.hashHex = key.hashHex
  -- keys of one hash share their files
  · rw [pair, CacheKey.metaPath_inj.2 hhash, CacheKey.dataPath_inj.2 hhash] at hpair
    rcases hkey metaJson data hpair with ⟨entry, ⟨key'', hmem, hput⟩, hrest⟩
    exact ⟨entry, ⟨key'', hmem, hput.trans (CacheKey.hash_of_hashHex hhash).symm⟩, hrest⟩
  · exact h key' hhash metaJson data hpair

theorem OthersIntact.of_agree (h : OthersIntact S puts key s)
    (hagree : ∀ q, q ≠ key.metaPath → q ≠ key.dataPath → t.file q = s.file q) :
    OthersIntact S puts key t := by
  intro key' hhash metaJson data hpair
  rw [pair_of_agree hhash hagree] at hpair
  exact h key' hhash metaJson data hpair

/-- Faults strike only where they are harmless for a put of the key. -/
abbrev SafeFault (key : CacheKey) (op : FileOp Path) (s : FileStore Path) : Prop :=
  ¬ Exposed key op s

/-- Wherever a put of the key is cut, the directory is intact or the put is exposed. -/
abbrev IntactOrExposed (S : Serde) (puts : List (CacheKey × CacheEntry)) (key : CacheKey)
    (op : FileOp Path) (s : FileStore Path) : Prop :=
  Intact S puts s ∨ Exposed key op s

/-- So many bytes of the metadata are written. -/
structure MetaWritten (S : Serde) (puts : List (CacheKey × CacheEntry)) (key : CacheKey)
    (metaFile : Nat) (written : Bytes) (s : FileStore Path) : Prop where
  dir : s.dir key.metaPath = some metaFile
  content : s.content metaFile = written
  others : OthersIntact S puts key s

/-- Metadata alone is no entry: without a data file the directory is intact. -/
theorem OthersIntact.of_data_absent (h : OthersIntact S puts key s)
    (hdata : ¬ (s.dir key.dataPath).isSome = true) : Intact S puts s := by
  refine h.intact (.of_absent ?_)
  exact FileStore.file_eq_none.2 (by simpa using hdata)

theorem writeMeta_holds (h : Intact S puts s) (metaJson : Bytes) :
    Prog.Holds (Performs (SafeFault key)) (IntactOrExposed S puts key)
      (fun r t => (r = .ok () ∧ t.file key.metaPath = some metaJson ∧ OthersIntact S puts key t) ∨
        ((∃ e, r = .error e) ∧ Intact S puts t))
      (FileProg.writeFile key.metaPath metaJson) s := by
  refine .call (.inl h) ?_
  intro r t hr
  rcases performs_create hr with ⟨m, rfl, hdir, hcontent, hagree⟩ | ⟨⟨e, rfl⟩, rfl, _⟩
  · have hA : MetaWritten S puts key m [] t :=
      ⟨hdir, hcontent, (Intact.others h).of_agree (fun q hq _ => hagree q hq)⟩
    -- with a data file in the directory the put is exposed, without one the directory is intact
    have hcut : ∀ written u, MetaWritten S puts key m written u →
        (u.dir key.dataPath).isSome = true ∨ Intact S puts u := by
      intro written u hu
      by_cases hdata : (u.dir key.dataPath).isSome = true
      · exact .inl hdata
      · exact .inr (hu.others.of_data_absent hdata)
    refine Prog.Holds.seq (FileProg.holds_writeAll (A := MetaWritten S puts key m)
      (B := Intact S puts) ?_ ?_ hA) ?_
    · intro written b u hu
      rcases hcut written u hu with hdata | hintact
      · exact .inr ⟨hdata, trivial⟩
      · exact .inl hintact
    · intro written b u r v hu hv
      rcases performs_write hv hu.dir with
        ⟨hok, hdir', hcontent', hagree'⟩ | ⟨herr, rfl, hsafe⟩
      -- one more byte of the metadata is written, or the write is refused where that is safe
      · refine .inl ⟨hok, ⟨?_, ?_, hu.others.of_agree (fun q hq _ => hagree' q hq)⟩⟩
        · rw [hdir', hu.dir]
        · rw [hcontent', hu.content]
      · rcases hcut written v hu with hdata | hintact
        · exact absurd ⟨hdata, trivial⟩ hsafe
        · exact .inr ⟨herr, hintact⟩
    · rintro r u (⟨rfl, hu⟩ | ⟨⟨e, rfl⟩, hintact⟩)
      · refine .call ?_ ?_
        · rcases hcut _ u hu with hdata | hintact
          · exact .inr ⟨hdata, hu.dir⟩
          · exact .inl hintact
        · intro r v hv
          rcases performs_same (fun _ => rfl) hv with ⟨hsame, ⟨now, rfl⟩ | ⟨⟨e, rfl⟩, rfl, hsafe⟩⟩
          · refine .inl ⟨rfl, ?_, hu.others.of_agree (fun q _ _ => hsame.file q)⟩
            rw [hsame.file, FileStore.file_of_dir hu.dir, hu.content]
            simp
          · rcases hcut _ v hu with hdata | hintact
            · exact absurd ⟨hdata, hu.dir⟩ hsafe
            · exact .inr ⟨⟨e, rfl⟩, hintact⟩
      · exact .inr ⟨⟨e, rfl⟩, hintact⟩
  · exact .inr ⟨⟨e, rfl⟩, h⟩

/-- The metadata is complete and so many bytes of the data are written. -/
structure DataWritten (S : Serde) (puts : List (CacheKey × CacheEntry)) (key : CacheKey)
    (metaJson : Bytes) (dataFile : Nat) (written : Bytes) (s : FileStore Path) : Prop where
  metaFile : s.file key.metaPath = some metaJson
  dir : s.dir key.dataPath = some dataFile
  content : s.content dataFile = written
  others : OthersIntact S puts key s

theorem DataWritten.present {metaJson written : Bytes} {dataFile : Nat}
    (h : DataWritten S puts key metaJson dataFile written s) :
    (s.dir key.dataPath).isSome = true := by
  simp [h.dir]

/-- With all of its bytes the data file makes the entry complete. -/
theorem DataWritten.intact {metaJson : Bytes} {dataFile : Nat} {entry : CacheEntry}
    (h : DataWritten S puts key metaJson dataFile entry.data s) (hput : WasPut puts key entry)
    (hjson : S.toVec entry.metadata = .ok metaJson) : Intact S puts s := by
  refine h.others.intact ?_
  intro metaJson' data hpair
  have hmeta : s.file key.metaPath = some metaJson' := congrArg Prod.fst hpair
  have hdata : s.file key.dataPath = some data := congrArg Prod.snd hpair
  rw [h.metaFile] at hmeta
  rw [FileStore.file_of_dir h.dir, h.content] at hdata
  cases hmeta
  cases hdata
  exact ⟨entry, hput, hjson, rfl⟩

theorem writeData_holds {metaJson : Bytes} {entry : CacheEntry} (hput : WasPut puts key entry)
    (hjson : S.toVec entry.metadata = .ok metaJson)
    (hmeta : s.file key.metaPath = some metaJson) (hothers : OthersIntact S puts key s) :
    Prog.Holds (Performs (SafeFault key)) (IntactOrExposed S puts key)
      (fun _ t => Intact S puts t) (FileProg.writeFile key.dataPath entry.data) s := by
  refine .call ?_ ?_
  · by_cases hdata : (s.dir key.dataPath).isSome = true
    · exact .inr ⟨hdata, rfl⟩
    · exact .inl (hothers.of_data_absent hdata)
  · intro r t hr
    rcases performs_create hr with ⟨d, rfl, hdir, hcontent, hagree⟩ | ⟨⟨e, rfl⟩, rfl, hsafe⟩
    · have hA : DataWritten S puts key metaJson d [] t :=
        { metaFile := by rw [hagree _ CacheKey.metaPath_ne_dataPath, hmeta]
          dir := hdir
          content := hcontent
          others := hothers.of_agree (fun q _ hq => hagree q hq) }
      refine Prog.Holds.seq (FileProg.holds_writeAll (A := DataWritten S puts key metaJson d)
        (B := Intact S puts) ?_ ?_ hA) ?_
      · intro written b u hu
        exact .inr ⟨hu.present, trivial⟩
      · intro written b u r v hu hv
        rcases performs_write hv hu.dir with
          ⟨hok, hdir', hcontent', hagree'⟩ | ⟨_, _, hsafe⟩
        · exact .inl ⟨hok,
            { metaFile := by rw [hagree' _ CacheKey.metaPath_ne_dataPath, hu.metaFile]
              dir := by rw [hdir', hu.dir]
              content := by rw [hcontent', hu.content]
              others := hu.others.of_agree (fun q _ hq => hagree' q hq) }⟩
        -- a refused write would leave short data under complete metadata: the put is exposed
        · exact absurd ⟨hu.present, trivial⟩ hsafe
      · rintro r u (⟨rfl, hu⟩ | ⟨⟨e, rfl⟩, hintact⟩)
        · have hintact := hu.intact hput hjson
          refine .call (.inl hintact) ?_
          intro r v hv
          rcases performs_same (fun _ => rfl) hv with ⟨hsame, ⟨now, rfl⟩ | ⟨⟨e, rfl⟩, _, _⟩⟩
          · exact hintact.sameFiles hsame
          · exact hintact.sameFiles hsame
        · exact hintact
    · have hdata : ¬ (t.dir key.dataPath).isSome = true := fun hdata => hsafe ⟨hdata, rfl⟩
      exact hothers.of_data_absent hdata

theorem writeEntry_holds (h : Intact S puts s) {metaJson : Bytes} {entry : CacheEntry}
    (hput : WasPut puts key entry) (hjson : S.toVec entry.metadata = .ok metaJson) :
    Prog.Holds (Performs (SafeFault key)) (IntactOrExposed S puts key)
      (fun _ t => Intact S puts t) (writeEntry key entry metaJson) s := by
  refine .call (.inl h) ?_
  intro r t hr
  rcases performs_same (fun _ => rfl) hr with ⟨hsame, ⟨now, rfl⟩ | ⟨⟨e, rfl⟩, rfl, _⟩⟩
  · refine Prog.Holds.seq (writeMeta_holds (h.sameFiles hsame) metaJson) ?_
    rintro r u (⟨rfl, hmeta, hothers⟩ | ⟨⟨e, rfl⟩, hintact⟩)
    · refine Prog.Holds.seq (writeData_holds hput hjson hmeta hothers) ?_
      intro r v hv
      cases r with
      | error e =>
          exact hv
      | ok _ =>
          exact hv
    · exact hintact
  · exact h

/-- Wherever a put is cut or a step of it refused, the directory is intact, or the put was
exposed there. -/
theorem put_holds (h : Intact S puts s) {entry : CacheEntry} (hput : WasPut puts key entry)
    (cache : DiskCache) :
    Prog.Holds (Performs (SafeFault key)) (IntactOrExposed S puts key)
      (fun _ t => Intact S puts t) (DiskCache.put S key entry cache) s := by
  unfold DiskCache.put
  split
  · exact h
  · rename_i metaJson hjson
    dsimp only
    split
    · exact h
    · refine Prog.Holds.seq (h.holds (fun _ _ hu => .inl hu) (evictIfNeeded_shrinks _ _)) ?_
      rintro ⟨r, cache'⟩ t ht
      cases r with
      | error e =>
          exact ht
      | ok _ =>
          refine Prog.Holds.seq (ht.holds (fun _ _ hu => .inl hu) (removeFiles_shrinks _)) ?_
          intro oldSize u hu
          refine Prog.Holds.seq (writeEntry_holds hu hput hjson) ?_
          intro r v hv
          cases r with
          | error e =>
              exact hv
          | ok _ =>
              exact hv

end Write

/-! ## Both tiers -/

/-- The memory tier holds entries that were put. -/
def Remembers (puts : List (CacheKey × CacheEntry)) (cache : TieredCache) : Prop :=
  ∀ key entry, cache.memory key = some entry → WasPut puts key entry

theorem Remembers.remember {puts : List (CacheKey × CacheEntry)} {cache : TieredCache}
    (h : Remembers puts cache) {key : CacheKey} {entry : CacheEntry}
    (hput : WasPut puts key entry) : Remembers puts (cache.remember key entry) := by
  intro key' entry' hmem
  by_cases hkey : key' = key
  · subst hkey
    have heq : entry = entry' := by
      simpa using hmem
    exact heq ▸ hput
  · rw [TieredCache.memory_remember_of_ne hkey] at hmem
    exact h key' entry' hmem

theorem Remembers.forget {puts : List (CacheKey × CacheEntry)} {cache : TieredCache}
    (h : Remembers puts cache) (key : CacheKey) : Remembers puts (cache.forget key) := by
  intro key' entry' hmem
  by_cases hkey : key' = key
  · subst hkey
    simp at hmem
  · rw [TieredCache.memory_forget_of_ne hkey] at hmem
    exact h key' entry' hmem

section Tiered

variable {S : Serde} {puts : List (CacheKey × CacheEntry)} {key : CacheKey}
  {s : FileStore Path} {cache : TieredCache} {allowed : FileOp Path → FileStore Path → Prop}

theorem getFromDisk_holds (hS : S.RoundTrip) (h : Intact S puts s) (hcache : Remembers puts cache)
    (later : Nat) :
    Prog.Holds (Performs allowed) (fun _ t => Intact S puts t)
      (fun a t => Intact S puts t ∧ Remembers puts a.2 ∧ GoodFind puts key allowed a.1)
      (TieredCache.getFromDisk S key later cache) s := by
  refine Prog.Holds.seq (get_holds hS h) ?_
  rintro r t ⟨ht, hgood⟩
  rcases r with e | _ | entry
  · exact ⟨ht, hcache, hgood⟩
  · exact ⟨ht, hcache, hgood⟩
  · dsimp only
    split
    · refine Prog.Holds.seq (ht.holds (fun _ _ hu => hu) (remove_shrinks key cache.disk)) ?_
      intro r u hu
      exact ⟨hu, hcache, GoodFind.none⟩
    · exact ⟨ht, hcache.remember (hgood.1 entry rfl), hgood⟩

theorem tieredGet_holds (key : CacheKey) (hS : S.RoundTrip) (h : Intact S puts s)
    (hcache : Remembers puts cache) (now later : Nat) :
    Prog.Holds (Performs allowed) (fun _ t => Intact S puts t)
      (fun a t => Intact S puts t ∧ Remembers puts a.2 ∧ GoodFind puts key allowed a.1)
      (cache.get S key now later) s := by
  unfold TieredCache.get
  split
  · rename_i entry hmem
    split
    -- an expired entry is dropped from memory, then the disk is asked
    · exact getFromDisk_holds hS h (hcache.forget key) later
    · refine ⟨h, hcache, ?_, fun _ => ⟨_, rfl⟩⟩
      intro entry' heq
      cases heq
      exact hcache key entry hmem
  · exact getFromDisk_holds hS h hcache later

theorem tieredPut_holds (h : Intact S puts s) (hcache : Remembers puts cache)
    {entry : CacheEntry} (hput : WasPut puts key entry) :
    Prog.Holds (Performs (SafeFault key)) (IntactOrExposed S puts key)
      (fun a t => Intact S puts t ∧ Remembers puts a.2) (cache.put S key entry) s := by
  unfold TieredCache.put
  split
  · refine Prog.Holds.seq (put_holds h hput cache.disk) ?_
    rintro ⟨r, disk⟩ t ht
    have hdisk : Remembers puts { cache with disk := disk } := hcache
    cases r with
    | error e =>
        exact ⟨ht, hdisk⟩
    | ok _ =>
        exact ⟨ht, hdisk.remember hput⟩
  · exact ⟨h, hcache.remember hput⟩

end Tiered

/-! ## The machine -/

/-- Where a step of the call may be refused. -/
def Call.allowed (call : Call) (op : FileOp Path) (s : FileStore Path) : Prop :=
  ∀ key entry, call.entryPut = some (key, entry) → SafeFault key op s

/-- Where a call is cut, the directory is intact or a put is exposed. -/
def Call.atCut (S : Serde) (puts : List (CacheKey × CacheEntry)) (call : Call)
    (op : FileOp Path) (s : FileStore Path) : Prop :=
  Intact S puts s ∨ ∃ key entry, call.entryPut = some (key, entry) ∧ Exposed key op s

/-- What holds when a call is over. -/
structure Call.Over (S : Serde) (puts : List (CacheKey × CacheEntry)) (call : Call)
    (a : Reply × Option TieredCache) (s : FileStore Path) : Prop where
  intact : Intact S puts s
  remembers : ∀ cache, a.2 = some cache → Remembers puts cache
  found : ∀ key now later r, call = .get key now later → a.1 = .found r →
    ∀ entry, r = .ok (some entry) → WasPut puts key entry

/-- A get that is over has not failed. -/
def Call.Answered (call : Call) (a : Reply × Option TieredCache) : Prop :=
  ∀ key now later r, call = .get key now later → a.1 = .found r → ∃ found, r = .ok found

section Calls

variable {S : Serde} {puts : List (CacheKey × CacheEntry)} {cache : TieredCache}
  {s : FileStore Path} {call : Call}

/-- A put is cut where its own condition says. -/
theorem Call.holds_of_put {α : Type} {key : CacheKey} {entry : CacheEntry}
    (hcall : call.entryPut = some (key, entry)) {Post : α → FileStore Path → Prop}
    {p : DiskProg α}
    (h : Prog.Holds (Performs (SafeFault key)) (IntactOrExposed S puts key) Post p s) :
    Prog.Holds (Performs call.allowed) (call.atCut S puts) Post p s := by
  refine (h.of_perf ?_).mono ?_ (fun _ _ ha => ha)
  · rintro op u r t (happly | ⟨hrefused, hallowed⟩)
    · exact .inl happly
    · exact .inr ⟨hrefused, hallowed key entry hcall⟩
  · rintro op u (hintact | hexposed)
    · exact .inl hintact
    · exact .inr ⟨key, entry, hcall, hexposed⟩

theorem call_holds (hS : S.RoundTrip) (h : Intact S puts s) (hcache : Remembers puts cache)
    (hput : ∀ key entry, call.entryPut = some (key, entry) → WasPut puts key entry) :
    Prog.Holds (Performs call.allowed) (call.atCut S puts) (call.Over S puts)
      (call.run S cache) s := by
  cases call with
  | start maxSize walk =>
      refine Prog.Holds.seq (h.holds (fun _ _ hu => .inl hu) (new_shrinks maxSize walk)) ?_
      intro r t ht
      cases r with
      | error e =>
          exact ⟨ht, by simp, by simp⟩
      | ok disk =>
          refine ⟨ht, ?_, by simp⟩
          intro cache' heq
          cases heq
          intro key entry hmem
          simp [TieredCache.ofDisk] at hmem
  | put key entry =>
      refine Prog.Holds.seq (Call.holds_of_put rfl
        (tieredPut_holds h hcache (hput key entry rfl))) ?_
      rintro ⟨r, cache'⟩ t ⟨ht, hcache'⟩
      refine ⟨ht, ?_, by simp⟩
      intro cache'' heq
      cases heq
      exact hcache'
  | get key now later =>
      refine Prog.Holds.seq ((tieredGet_holds key hS h hcache now later).mono
        (fun _ _ hu => .inl hu) (fun _ _ ha => ha)) ?_
      rintro ⟨r, cache'⟩ t ⟨ht, hcache', hgood⟩
      refine ⟨ht, ?_, ?_⟩
      · intro cache'' heq
        cases heq
        exact hcache'
      · intro key' now' later' r' hcall hr entry hentry
        cases hcall
        cases hr
        exact hgood.1 entry hentry
  -- the disk tier alone: the memory tier stays as it is
  | diskPut key entry =>
      refine Prog.Holds.seq (Call.holds_of_put rfl
        (put_holds h (hput key entry rfl) cache.disk)) ?_
      rintro ⟨r, disk⟩ t ht
      refine ⟨ht, ?_, by simp⟩
      intro cache' heq
      cases heq
      exact hcache
  | diskRemove key =>
      refine Prog.Holds.seq (h.holds (fun _ _ hu => .inl hu) (remove_shrinks key cache.disk)) ?_
      rintro ⟨r, disk⟩ t ht
      refine ⟨ht, ?_, by simp⟩
      intro cache' heq
      cases heq
      exact hcache

/-- A get of which no step is refused answers. -/
theorem call_answered (hS : S.RoundTrip) (h : Intact S puts s) (hcache : Remembers puts cache)
    (call : Call) :
    Prog.Holds (Performs (fun _ _ => False)) (fun _ _ => True)
      (fun a _ => call.Answered a) (call.run S cache) s := by
  cases call with
  | get key now later =>
      refine Prog.Holds.seq ((tieredGet_holds key hS h hcache now later).mono
        (fun _ _ _ => trivial) (fun _ _ ha => ha)) ?_
      rintro ⟨r, cache'⟩ t ⟨_, _, hgood⟩ key' now' later' r' _ hr
      cases hr
      exact hgood.2 (fun _ _ hfalse => hfalse)
  | _ =>
      refine Prog.Holds.of_forall (fun _ _ => trivial) ?_ _ _
      intro a t key' now' later' r' hcall
      cases hcall

end Calls

end Cache
end Squiddish
