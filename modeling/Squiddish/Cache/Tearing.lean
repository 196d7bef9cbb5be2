import Squiddish.Cache.Shared
import Squiddish.Cache.Pairs
import Squiddish.Cache.Example

/-!
# Tearing — a get beside a writer finds one entry as a whole, where the two keep apart

The files of an entry are numbered `m` and `m + 1`, under their names and in the hands of whoever
has opened them; this is the invariant of a get.

A get that holds old metadata while a put replaces the entry is not apart: it returns the headers
of one entry with the data of another.
-/

namespace Squiddish
namespace Cache

open Lib

/-! ## A get -/

section Read

/-- Both files are open: the data file is still under its name, or it is complete and nobody
writes to it any more. -/
structure Held (S : Serde) (puts : List (CacheKey × CacheEntry)) (key : CacheKey) (m : Nat)
    (s : FileStore Path) : Prop where
  lt : m + 1 < s.next
  whole : s.dir key.dataPath = some (m + 1) ∨
    (EntryAt S puts none key m s ∧ ∀ p, s.dir p ≠ some (m + 1))

/-- What a get that is over has found. -/
def Found (puts : List (CacheKey × CacheEntry)) (key : CacheKey)
    (r : Outcome (Option CacheEntry)) : Prop :=
  r = .ok none ∨ ∃ entry, r = .ok (some entry) ∧ WasPut puts key entry

/-- How far a get has come, and what it may rely on there. -/
inductive Reading (S : Serde) (puts : List (CacheKey × CacheEntry)) (key : CacheKey)
    (s : FileStore Path) : DiskProg (Outcome (Option CacheEntry)) → Prop
  | start : Reading S puts key s (DiskCache.get S key)
  | opened {m : Nat} : m < s.next → (∀ d, s.dir key.dataPath = some d → d = m + 1) →
      Reading S puts key s (openData S key m)
  | both {m : Nat} : Held S puts key m s → Reading S puts key s (readMetadata S m (m + 1))
  | parsed {m : Nat} {metadata : DiskCacheMetadata} : Held S puts key m s →
      S.fromSlice (s.content m) = .ok metadata → metadata.dataSize < 2 ^ 63 →
      Reading S puts key s (readData metadata (m + 1))
  | answered {r : Outcome (Option CacheEntry)} : Found puts key r → Reading S puts key s (.ret r)

variable {S : Serde} {puts : List (CacheKey × CacheEntry)} {key : CacheKey} {m : Nat}
  {s t : FileStore Path} {rest rest' : DiskProg (Outcome (Option CacheEntry))}

theorem Held.entryAt {writing : Option Nat} (h : Held S puts key m s)
    (hsound : Sound S puts writing s) : EntryAt S puts writing key m s := by
  rcases h.whole with hdir | ⟨hentry, _⟩
  · rcases hsound key _ hdir with ⟨m', hm, _, hentry⟩
    cases hm
    exact hentry
  · exact hentry.weaken

theorem Held.mono (h : Held S puts key m s) (more : List (CacheKey × CacheEntry)) :
    Held S (puts ++ more) key m s := by
  refine ⟨h.lt, ?_⟩
  rcases h.whole with hdir | ⟨hentry, hgone⟩
  · exact .inl hdir
  · exact .inr ⟨hentry.mono more, hgone⟩

theorem Found.mono {r : Outcome (Option CacheEntry)} (h : Found puts key r)
    (more : List (CacheKey × CacheEntry)) : Found (puts ++ more) key r := by
  rcases h with hnone | ⟨entry, hr, key', hmem, hhash⟩
  · exact .inl hnone
  · exact .inr ⟨entry, hr, key', List.mem_append_left _ hmem, hhash⟩

theorem Reading.mono (h : Reading S puts key s rest) (more : List (CacheKey × CacheEntry)) :
    Reading S (puts ++ more) key s rest := by
  cases h with
  | start =>
      exact .start
  | opened hlt hdata =>
      exact .opened hlt hdata
  | both hheld =>
      exact .both (hheld.mono more)
  | parsed hheld hback hsize =>
      exact .parsed (hheld.mono more) hback hsize
  | answered hfound =>
      exact .answered (hfound.mono more)

/-! ### The writer takes a step -/

/-- Metadata that has its data file after it is not written to any more. -/
theorem AtOp.content_meta {op : FileOp Path} (hat : AtOp S puts op s) (hm : m + 1 < s.next) :
    (op.apply s).2.content m = s.content m := by
  refine FileOp.content_apply (by omega) ?_ ?_
  · intro b hop
    have hlast := (hat.write m b hop).1
    omega
  · intro p hop
    simp [hat.create p hop]

theorem AtOp.content_of_gone {op : FileOp Path} (hat : AtOp S puts op s) {f : Nat}
    (hf : f < s.next) (hgone : ∀ p, s.dir p ≠ some f) :
    (op.apply s).2.content f = s.content f := by
  refine FileOp.content_apply hf ?_ (fun p _ => hgone p)
  intro b hop
  rcases (hat.write f b hop).2 with ⟨p, hp⟩
  exact hgone p hp

theorem Held.write {op : FileOp Path} (hat : AtOp S puts op s) (h : Held S puts key m s) :
    Held S puts key m (op.apply s).2 := by
  refine ⟨h.lt.trans_le (FileOp.le_next op s), ?_⟩
  have hmeta := hat.content_meta h.lt
  rcases h.whole with hdir | ⟨hentry, hgone⟩
  · by_cases hop : op = .removeFile key.dataPath
    · -- nobody writes while a file is removed, so the data is complete
      subst hop
      have hentry : EntryAt S puts none key m s := h.entryAt hat.sound
      refine .inr ⟨hentry.congr hmeta ?_, ?_⟩
      · exact FileOp.content_apply h.lt (by simp) (by simp)
      · intro p hp
        rcases FileOp.dir_of_dir_apply hp with hold | ⟨hcreate, _⟩
        · have hpath : p = key.dataPath := s.dir_inj _ _ _ hold hdir
          subst hpath
          simp [FileOp.apply, hdir] at hp
        · cases hcreate
    · exact .inl (FileOp.dir_apply hdir hop)
  · refine .inr ⟨hentry.congr hmeta (hat.content_of_gone h.lt hgone), ?_⟩
    intro p hp
    rcases FileOp.dir_of_dir_apply hp with hold | ⟨_, hnext⟩
    · exact hgone p hold
    -- a new file has a new number
    · have hlt := h.lt
      omega

/-- A step of the writer leaves a get what it relies on, unless it puts new data under old
metadata. -/
theorem Reading.write {op : FileOp Path} (hat : AtOp S puts op s) (h : Reading S puts key s rest)
    (hapart : ∀ m, rest = openData S key m → op = .create key.dataPath →
      s.dir key.metaPath = some m) :
    Reading S puts key (op.apply s).2 rest := by
  cases h with
  | start =>
      exact .start
  | @opened m hlt hdata =>
      refine .opened (hlt.trans_le (FileOp.le_next op s)) ?_
      intro d hd
      rcases FileOp.dir_of_dir_apply hd with hold | ⟨hop, hnext⟩
      · exact hdata d hold
      -- a data file is created right after its metadata, whose number is the last one
      · rcases hat.createData key hop with ⟨m', hm', hlast⟩
        have hm := hapart m rfl hop
        rw [hm] at hm'
        cases hm'
        omega
  | both hheld =>
      exact .both (hheld.write hat)
  | parsed hheld hback hsize =>
      refine .parsed (hheld.write hat) ?_ hsize
      rwa [hat.content_meta hheld.lt]
  | answered hfound =>
      exact .answered hfound

/-! ### The get takes a step -/

theorem of_step_call {α : Type} (op : FileOp Path) {next : op.Resp → DiskProg α} {p : DiskProg α}
    (h : Prog.Step (Prog.Does FileOp.apply) (.call op next, s) (p, t)) :
    ∃ r, op.apply s = (r, t) ∧ p = next r := by
  cases h with
  | call hr =>
      exact ⟨_, hr, rfl⟩

theorem step_of_apply {α : Type} (op : FileOp Path) (next : op.Resp → DiskProg α) {r : op.Resp}
    (h : op.apply s = (r, t)) :
    Prog.Step (Prog.Does FileOp.apply) (.call op next, s) (next r, t) :=
  .call h

theorem step_openFile {α : Type} {p : Path} {f : Nat} (h : s.dir p = some f)
    (next : Except IoError Nat → DiskProg α) :
    Prog.Step (Prog.Does FileOp.apply) (.call (.openFile p) next, s) (next (.ok f), s) := by
  refine step_of_apply (.openFile p) next ?_
  simp only [FileOp.apply, h]
  rfl

/-- A step of a get changes no file and brings the get further, unless it reads a file that is
being written to. -/
theorem Reading.step (hS : S.RoundTrip) {writing : Option Nat} (hsound : Sound S puts writing s)
    (h : Reading S puts key s rest)
    (hstep : Prog.Step (Prog.Does FileOp.apply) (rest, s) (rest', t))
    (hapart : ∀ f, rest.pending = some (.readToEnd f) → writing ≠ some f) :
    t = s ∧ Reading S puts key s rest' := by
  cases h with
  | start =>
      rcases of_step_call (.openFile key.metaPath) hstep with ⟨r, hr, rfl⟩
      rcases FileOp.apply_openFile hr with ⟨rfl, ⟨m, hm, rfl⟩ | ⟨_, rfl⟩⟩
      · refine ⟨rfl, .opened (t.dir_lt _ _ hm) ?_⟩
        intro d hd
        -- the data file that is there has the number after the metadata
        rcases hsound key d hd with ⟨m', rfl, hmeta, _⟩
        rw [hmeta m hm]
      · exact ⟨rfl, .answered (.inl rfl)⟩
  | @opened m hlt hdata =>
      rcases of_step_call (.openFile key.dataPath) hstep with ⟨r, hr, rfl⟩
      rcases FileOp.apply_openFile hr with ⟨rfl, ⟨d, hd, rfl⟩ | ⟨_, rfl⟩⟩
      · cases hdata d hd
        exact ⟨rfl, .both ⟨t.dir_lt _ _ hd, .inl hd⟩⟩
      · exact ⟨rfl, .answered (.inl rfl)⟩
  | @both m hheld =>
      rcases of_step_call (.readToEnd m) hstep with ⟨r, hr, rfl⟩
      cases hr
      -- metadata is complete as soon as the data file has been created
      rcases hheld.entryAt hsound with ⟨entry, _, hjson, _⟩
      have hback := hS _ _ hjson
      refine ⟨rfl, ?_⟩
      simp only [hback]
      exact .parsed hheld hback entry.data_lt
  | @parsed m metadata hheld hback hsize =>
      rw [readData, if_pos hsize] at hstep hapart
      rcases of_step_call (.readToEnd (m + 1)) hstep with ⟨r, hr, rfl⟩
      cases hr
      rcases hheld.entryAt hsound with ⟨entry, hput, hjson, hentry⟩
      have hdata : s.content (m + 1) = entry.data := hentry (hapart (m + 1) rfl)
      -- what was parsed is the metadata of the entry whose data is read
      have hmetadata : metadata = entry.metadata := by
        have hboth := hback.symm.trans (hS _ _ hjson)
        exact Except.ok.inj hboth
      have hlen : (s.content (m + 1)).length < 2 ^ 63 := hdata ▸ entry.data_lt
      refine ⟨rfl, ?_⟩
      show Reading S puts key s (if hdata : (s.content (m + 1)).length < 2 ^ 63 then _ else _)
      rw [dif_pos hlen, hmetadata, entryOf_metadata hdata]
      exact .answered (.inr ⟨entry, rfl, hput⟩)
  | answered hfound =>
      cases hstep

end Read

/-! ## Every run -/

/-- What holds between the writer and the directory. -/
def Writer.Keeps (S : Serde) (puts : List (CacheKey × CacheEntry)) (files : FileStore Path) :
    Writer → Prop
  | .idle _ => Sound S puts none files
  | .busy rest =>
      Prog.Holds (Prog.Does FileOp.apply) (AtOp S puts) (fun _ t => Sound S puts none t) rest files

structure Shared.Inv (S : Serde) (s : Shared) : Prop where
  writer : s.writer.Keeps S s.puts s.files
  gets : ∀ id key rest, s.gets id = some ⟨key, rest⟩ → Reading S s.puts key s.files rest

variable {S : Serde} {s t : Shared}

theorem Writer.Keeps.sound {puts : List (CacheKey × CacheEntry)} {files : FileStore Path}
    {writer : Writer} (h : writer.Keeps S puts files) :
    Sound S puts (writer.pending.bind writtenBy) files := by
  cases writer with
  | idle cache =>
      exact h
  | busy rest =>
      cases rest with
      | ret a =>
          exact h
      | call op next =>
          exact h.1.sound

/-- One get changes, and all others stay. -/
theorem Shared.gets_setGet {id : Nat} {reader : Option Reader} {key : CacheKey}
    {P : CacheKey → DiskProg (Outcome (Option CacheEntry)) → Prop}
    (hnew : ∀ key rest, reader = some ⟨key, rest⟩ → P key rest)
    (hold : ∀ id key rest, s.gets id = some ⟨key, rest⟩ → P key rest)
    {id' : Nat} {rest : DiskProg (Outcome (Option CacheEntry))}
    (h : (s.setGet id reader).gets id' = some ⟨key, rest⟩) : P key rest := by
  by_cases hid : id' = id
  · subst hid
    exact hnew key rest (by simpa [Shared.setGet] using h)
  · exact hold id' key rest (by simpa [Shared.setGet, hid] using h)

theorem Shared.Inv.write {rest rest' : DiskProg (Outcome Unit × DiskCache)}
    {files : FileStore Path} (h : s.Inv S) (hwriter : s.writer = .busy rest)
    (hstep : Prog.Step (Prog.Does FileOp.apply) (rest, s.files) (rest', files))
    (hapart : Apart S s .write) :
    Shared.Inv S { s with files := files, writer := .busy rest' } := by
  have hholds : Prog.Holds (Prog.Does FileOp.apply) (AtOp S s.puts)
      (fun _ t => Sound S s.puts none t) rest s.files := by
    have hkeeps := h.writer
    rwa [hwriter] at hkeeps
  refine { writer := hholds.step hstep, gets := ?_ }
  intro id key rest₁ hget
  have hget' : s.gets id = some ⟨key, rest₁⟩ := hget
  cases hstep with
  | @call op next _ _ r hr =>
      have hr' : op.apply s.files = (r, files) := hr
      have hfiles : files = (op.apply s.files).2 := by
        rw [hr']
      show Reading S s.puts key files rest₁
      rw [hfiles]
      refine (h.gets id key rest₁ hget').write (hholds.of_pending rfl) ?_
      rintro m rfl rfl
      exact hapart id key m hget' (by rw [hwriter]; rfl)

theorem Shared.Inv.read (hS : S.RoundTrip) {id : Nat} {key : CacheKey}
    {rest rest' : DiskProg (Outcome (Option CacheEntry))} {files : FileStore Path}
    (h : s.Inv S) (hget : s.gets id = some ⟨key, rest⟩)
    (hstep : Prog.Step (Prog.Does FileOp.apply) (rest, s.files) (rest', files))
    (hapart : Apart S s (.read id)) :
    Shared.Inv S ({ s with files := files }.setGet id (some ⟨key, rest'⟩)) := by
  have hnext : files = s.files ∧ Reading S s.puts key s.files rest' := by
    refine (h.gets id key rest hget).step hS h.writer.sound hstep ?_
    intro f hpending hwriting
    cases hop : s.writer.pending with
    | none =>
        simp [hop] at hwriting
    | some op =>
        cases op with
        -- the only operation that writes to a file; the get and the writer are then not apart
        | write g b =>
            have hg : g = f := by
              simpa [hop, writtenBy] using hwriting
            exact hapart ⟨key, rest⟩ f b hget hpending (by rw [hop, hg])
        | _ =>
            simp [hop, writtenBy] at hwriting
  rcases hnext with ⟨rfl, hreading⟩
  refine { writer := h.writer, gets := ?_ }
  intro id' key' rest'' hget'
  refine Shared.gets_setGet (P := fun key rest => Reading S s.puts key s.files rest) ?_ h.gets hget'
  intro key₁ rest₁ heq
  cases heq
  exact hreading

theorem SharedStep.inv (hS : S.RoundTrip) {event : SharedEvent} (hstep : SharedStep S s event t)
    (hapart : Apart S s event) (h : s.Inv S) : t.Inv S := by
  cases hstep with
  | @put cache key entry hwriter =>
      have hsound : Sound S s.puts none s.files := by
        have hkeeps := h.writer
        rwa [hwriter] at hkeeps
      -- a put joins those an answer may come from, when it begins
      refine { writer := put_sound (hsound.mono _) ⟨key, by simp, rfl⟩ cache, gets := ?_ }
      intro id key' rest hget
      exact (h.gets id key' rest hget).mono _
  | @remove cache key hwriter =>
      have hsound : Sound S s.puts none s.files := by
        have hkeeps := h.writer
        rwa [hwriter] at hkeeps
      exact { writer := hsound.holds (remove_shrinks key cache), gets := h.gets }
  | write hwriter hstep =>
      exact h.write hwriter hstep hapart
  | @done r cache hwriter =>
      have hsound : Sound S s.puts none s.files := by
        have hkeeps := h.writer
        rwa [hwriter] at hkeeps
      exact { writer := hsound, gets := h.gets }
  | get _ =>
      refine { writer := h.writer, gets := ?_ }
      intro id key rest hget
      refine Shared.gets_setGet (P := fun key rest => Reading S s.puts key s.files rest)
        ?_ h.gets hget
      intro key₁ rest₁ heq
      cases heq
      exact .start
  | read hget hstep =>
      exact h.read hS hget hstep hapart
  | answer _ =>
      refine { writer := h.writer, gets := ?_ }
      intro id key rest hget
      exact Shared.gets_setGet (P := fun key rest => Reading S s.puts key s.files rest)
        (by simp) h.gets hget

theorem Shared.Inv.untorn (h : s.Inv S) : Untorn s := by
  intro id key r hget
  have hreading := h.gets id key _ hget
  generalize hrest : (Prog.ret r : DiskProg (Outcome (Option CacheEntry))) = rest at hreading
  cases hreading with
  | answered hfound =>
      cases hrest
      exact hfound
  | parsed _ _ hsize =>
      rw [readData, if_pos hsize] at hrest
      cases hrest
  | _ =>
      cases hrest

/-- In every run in which gets and writer keep apart, a get finds nothing or one entry as a
whole. -/
theorem untorn_of_apart (hS : S.RoundTrip) {maxSize : Nat} {events : List SharedEvent}
    {t : Shared} (hrun : Run (Guarded (SharedStep S) (Apart S)) (.init maxSize) events t) :
    Untorn t := by
  have hinv : t.Inv S := by
    refine hrun.invariant (I := Shared.Inv S) ?_ ?_
    · intro s event u hs hstep
      exact hstep.1.inv hS hstep.2 hs
    · refine { writer := ?_, gets := by simp [Shared.init] }
      intro key
      exact .of_absent rfl
  exact hinv.untorn

/-! ## A put between the steps of a get -/

/-- No call of the writer is under way, and one get is. -/
def Shared.reading (files : FileStore Path) (cache : DiskCache)
    (puts : List (CacheKey × CacheEntry)) (key : CacheKey)
    (rest : DiskProg (Outcome (Option CacheEntry))) : Shared where
  files := files
  writer := .idle cache
  gets := Function.update (fun _ => none) 0 (some ⟨key, rest⟩)
  puts := puts

section Across

variable (ok : Shared → SharedEvent → Prop)

theorem run_writes (hok : ∀ u : Shared, u.gets = s.gets → ok u .write)
    {c d : DiskProg (Outcome Unit × DiskCache) × FileStore Path}
    (h : Relation.ReflTransGen (Prog.Step (Prog.Does FileOp.apply)) c d) :
    ∃ events, Run (Guarded (SharedStep S) ok)
      { s with files := c.2, writer := .busy c.1 } events
      { s with files := d.2, writer := .busy d.1 } := by
  induction h with
  | refl =>
      exact ⟨[], .nil _⟩
  | tail _ hstep ih =>
      rcases ih with ⟨events, hrun⟩
      exact ⟨_, hrun.snoc ⟨.write rfl hstep, hok _ rfl⟩⟩

theorem step_reading {files files' : FileStore Path} {cache : DiskCache}
    {puts : List (CacheKey × CacheEntry)} {key : CacheKey}
    {rest rest' : DiskProg (Outcome (Option CacheEntry))}
    (h : Prog.Step (Prog.Does FileOp.apply) (rest, files) (rest', files')) :
    SharedStep S (.reading files cache puts key rest) (.read 0)
      (.reading files' cache puts key rest') := by
  have hget : (Shared.reading files cache puts key rest).gets 0 = some ⟨key, rest⟩ := by
    simp [Shared.reading]
  have hread := SharedStep.read (S := S) hget h
  simpa [Shared.reading, Shared.setGet] using hread

theorem run_reads (cache : DiskCache) (puts : List (CacheKey × CacheEntry)) (key : CacheKey)
    (hok : ∀ u : Shared, u.writer = .idle cache → ok u (.read 0))
    {c d : DiskProg (Outcome (Option CacheEntry)) × FileStore Path}
    (h : Relation.ReflTransGen (Prog.Step (Prog.Does FileOp.apply)) c d) :
    ∃ events, Run (Guarded (SharedStep S) ok) (.reading c.2 cache puts key c.1) events
      (.reading d.2 cache puts key d.1) := by
  induction h with
  | refl =>
      exact ⟨[], .nil _⟩
  | tail _ hstep ih =>
      rcases ih with ⟨events, hrun⟩
      exact ⟨_, hrun.snoc ⟨step_reading hstep, hok _ rfl⟩⟩

/-- A put while no get moves. -/
theorem run_put (hok : ∀ u event, u.gets = s.gets → (∀ id, event ≠ .read id) → ok u event)
    {cache : DiskCache} (hwriter : s.writer = .idle cache) {entry : CacheEntry} {metaJson : Bytes}
    (hjson : S.toVec entry.metadata = .ok metaJson)
    (hroom : cache.currentSize + (metaJson.length + entry.data.length) ≤ cache.maxSize)
    (key : CacheKey) :
    ∃ events cache', cache'.maxSize = cache.maxSize ∧
      cache'.currentSize ≤ cache.currentSize + (metaJson.length + entry.data.length) ∧
      Run (Guarded (SharedStep S) ok) s events
        { s with
          files := saveEntry key metaJson entry.data (dropFiles key.filePath s.files)
          writer := .idle cache'
          puts := s.puts ++ [(key, entry)] } := by
  have hsteps := Prog.steps_exec FileOp.apply (DiskCache.put S key entry cache) s.files
  have hput := perform_put_of_room hjson hroom key s.files
  simp only [perform] at hput
  rw [hput] at hsteps
  rcases run_writes ok (S := S) (s := { s with puts := s.puts ++ [(key, entry)] })
    (fun u hu => hok u .write hu (by simp)) hsteps with ⟨events, hrun⟩
  refine ⟨.put key entry :: (events ++ [.done]), _, maxSize_afterReplace _ _ _ _, ?_,
    .cons ⟨.put hwriter, hok s _ rfl (by simp)⟩ (hrun.snoc ⟨.done rfl, hok _ _ rfl (by simp)⟩)⟩
  by_cases hold : 0 < s.files.size key.metaPath + s.files.size key.dataPath
  · simp only [afterReplace, hold, if_true, DiskCache.retainOther]
    omega
  · simp only [afterReplace, hold, if_false]
    omega

/-- A put leaves the bytes of all files that were there, so that a get goes on reading what it has
opened. -/
theorem content_replaced (key : CacheKey) (metaJson data : Bytes) (files : FileStore Path)
    {f : Nat} (hf : f < files.next) :
    (saveEntry key metaJson data (dropFiles key.filePath files)).content f = files.content f := by
  have hpair := pair_dropFiles_self key files
  have hmeta : (dropFiles key.filePath files).dir key.metaPath = none :=
    FileStore.file_eq_none.1 (congrArg Prod.fst hpair)
  have hdata : ((dropFiles key.filePath files).save key.metaPath metaJson).dir key.dataPath =
      none := by
    refine FileStore.file_eq_none.1 ?_
    rw [FileStore.file_save_of_ne _ CacheKey.metaPath_ne_dataPath.symm]
    exact congrArg Prod.snd hpair
  have hnext : (dropFiles key.filePath files).next = files.next := rfl
  rw [saveEntry, FileStore.content_save_of_absent _ hdata
      (by rw [FileStore.next_save_of_absent _ hmeta]; omega),
    FileStore.content_save_of_absent _ hmeta (by omega)]
  rfl

variable {old new : CacheEntry} {oldJson newJson : Bytes} {maxSize : Nat}

/-- The entry `old` is there in the files `m` and `d`, and a get of it starts. -/
theorem run_get (hok : ∀ u event, (∀ id key m, u.gets id ≠ some ⟨key, openData S key m⟩) →
      (∀ id, event ≠ .read id) → ok u event)
    (hjson : S.toVec old.metadata = .ok oldJson)
    (hroom : oldJson.length + old.data.length ≤ maxSize) (key : CacheKey) :
    ∃ events cache files m d, cache.maxSize = maxSize ∧
      cache.currentSize ≤ oldJson.length + old.data.length ∧
      files.dir key.metaPath = some m ∧ files.dir key.dataPath = some d ∧
      files.content m = oldJson ∧ files.content d = old.data ∧
      Run (Guarded (SharedStep S) ok) (.init maxSize) events
        (.reading files cache [(key, old)] key (DiskCache.get S key)) := by
  have hnone : ∀ u : Shared, u.gets = (fun _ => none) →
      ∀ id key m, u.gets id ≠ some ⟨key, openData S key m⟩ := by
    intro u hu id key m
    simp [hu]
  rcases run_put ok (S := S) (s := .init maxSize)
    (fun u event hu hevent => hok u event (hnone u hu) hevent) rfl hjson
    (by simpa using hroom) key with ⟨events, cache, hmax, hsize, hrun⟩
  let files := saveEntry key oldJson old.data (dropFiles key.filePath (Shared.init maxSize).files)
  have hpair := pair_saveEntry_self key oldJson old.data
    (dropFiles key.filePath (Shared.init maxSize).files)
  rcases Option.map_eq_some_iff.1 (congrArg Prod.fst hpair) with ⟨m, hm, hmc⟩
  rcases Option.map_eq_some_iff.1 (congrArg Prod.snd hpair) with ⟨d, hd, hdc⟩
  refine ⟨events ++ [.get 0 key], cache, files, m, d, hmax, ?_, hm, hd, hmc, hdc,
    hrun.snoc ⟨.get rfl, hok _ _ (hnone _ rfl) (by simp)⟩⟩
  simpa using hsize

/-- A get opens the metadata of `old`, a put replaces `old` by `new`, and the get goes on with the
data of `new`. -/
theorem get_torn (hS : S.RoundTrip) (hold : S.toVec old.metadata = .ok oldJson)
    (hnew : S.toVec new.metadata = .ok newJson)
    (hroom : oldJson.length + old.data.length + (newJson.length + new.data.length) ≤ maxSize)
    (key : CacheKey) :
    ∃ events t, Run (SharedStep S) (.init maxSize) events t ∧
      t.puts = [(key, old), (key, new)] ∧
      t.gets 0 = some ⟨key, .ret (.ok (some (entryOf old.metadata new.data new.data_lt)))⟩ := by
  rcases run_get (fun _ _ => True) (fun _ _ _ _ => trivial) hold
      (Nat.le_trans (Nat.le_add_right _ _) hroom) key with
    ⟨before, cache, files, m, d, hmax, hsize, hm, _, hmc, _, hbefore⟩
  have hopen : SharedStep S (.reading files cache [(key, old)] key (DiskCache.get S key)) (.read 0)
      (.reading files cache [(key, old)] key (openData S key m)) := by
    exact step_reading (step_openFile hm _)
  rcases run_put (fun _ _ => True) (S := S)
    (s := .reading files cache [(key, old)] key (openData S key m)) (fun _ _ _ _ => trivial) rfl
    hnew (by omega) key with ⟨between, cache', _, _, hbetween⟩
  -- the old metadata has no name any more, and its bytes are still there
  let replaced := saveEntry key newJson new.data (dropFiles key.filePath files)
  have hkept : replaced.content m = oldJson := by
    rw [← hmc]
    exact content_replaced key newJson new.data files (files.dir_lt _ _ hm)
  have hpair : pair replaced key = (some newJson, some new.data) :=
    pair_saveEntry_self key newJson new.data _
  -- under the name of the data the get finds the new file
  rcases Option.map_eq_some_iff.1 (congrArg Prod.snd hpair) with ⟨d', hd', hdc'⟩
  have hread := Prog.steps_exec FileOp.apply (openData S key m) replaced
  have hexec : perform (openData S key m) replaced =
      (.ok (some (entryOf old.metadata new.data new.data_lt)), replaced) := by
    have hback : S.fromSlice (replaced.content m) = .ok old.metadata := by
      rw [hkept]
      exact hS _ _ hold
    have hlen : (replaced.content d').length < 2 ^ 63 := hdc' ▸ new.data_lt
    rw [perform_openData hd', perform_readMetadata hback old.data_lt hlen]
    simp only [hdc']
  simp only [perform] at hexec
  rw [hexec] at hread
  rcases run_reads (fun _ _ => True) (S := S) cache' ([(key, old)] ++ [(key, new)]) key
    (fun _ _ => trivial) hread with ⟨after, hafter⟩
  have hrun := hbefore.append (.cons ⟨hopen, trivial⟩ (hbetween.append hafter))
  exact ⟨_, _, hrun.of_guarded, rfl, by simp [Shared.reading]⟩

/-- No get stands between its two opens. -/
theorem Apart.of_not_opening {u : Shared} {event : SharedEvent}
    (hopen : ∀ id key m, u.gets id ≠ some ⟨key, openData S key m⟩)
    (hevent : ∀ id, event ≠ .read id) : Apart S u event := by
  cases event with
  | write =>
      intro id key m hget
      exact absurd hget (hopen id key m)
  | read id =>
      exact absurd rfl (hevent id)
  | _ =>
      trivial

theorem Apart.of_idle {u : Shared} {cache : DiskCache} (h : u.writer = .idle cache) (id : Nat) :
    Apart S u (.read id) := by
  intro reader f b _ _ hpending
  rw [h] at hpending
  cases hpending

/-- A get that has opened both files of `old` returns `old`, though a put replaces it meanwhile. -/
theorem get_across_put (hS : S.RoundTrip) (hold : S.toVec old.metadata = .ok oldJson)
    (hnew : S.toVec new.metadata = .ok newJson)
    (hroom : oldJson.length + old.data.length + (newJson.length + new.data.length) ≤ maxSize)
    (key : CacheKey) :
    ∃ events t, Run (Guarded (SharedStep S) (Apart S)) (.init maxSize) events t ∧
      t.puts = [(key, old), (key, new)] ∧
      t.gets 0 = some ⟨key, .ret (.ok (some old))⟩ := by
  rcases run_get (Apart S) (fun _ _ => Apart.of_not_opening) hold
      (Nat.le_trans (Nat.le_add_right _ _) hroom) key with
    ⟨before, cache, files, m, d, hmax, hsize, hm, hd, hmc, hdc, hbefore⟩
  have hopens : Relation.ReflTransGen (Prog.Step (Prog.Does FileOp.apply))
      (DiskCache.get S key, files) (readMetadata S m d, files) := by
    exact .head (step_openFile hm _) (.head (step_openFile hd _) .refl)
  rcases run_reads (Apart S) (S := S) cache [(key, old)] key
    (fun u hu => .of_idle hu 0) hopens with ⟨opening, hopening⟩
  -- the get has passed its two opens, so the put does not come between them
  have hopened : ∀ u : Shared,
      u.gets = (Shared.reading files cache [(key, old)] key (readMetadata S m d)).gets →
      ∀ id key' m', u.gets id ≠ some ⟨key', openData S key' m'⟩ := by
    intro u hu id key' m' hget
    rw [hu] at hget
    by_cases hid : id = 0
    · subst hid
      have hrest : readMetadata S m d = openData S key' m' := by
        have hreader : (⟨key, readMetadata S m d⟩ : Reader) = ⟨key', openData S key' m'⟩ := by
          simpa [Shared.reading] using hget
        exact congrArg Reader.rest hreader
      have hpending := congrArg Prog.pending hrest
      simp [readMetadata, openData, Prog.pending] at hpending
    · simp [Shared.reading, hid] at hget
  rcases run_put (Apart S) (S := S)
    (s := .reading files cache [(key, old)] key (readMetadata S m d))
    (fun u event hu hevent => .of_not_opening (hopened u hu) hevent) rfl
    hnew (by omega) key with ⟨between, cache', _, _, hbetween⟩
  let replaced := saveEntry key newJson new.data (dropFiles key.filePath files)
  have hmeta : replaced.content m = oldJson := by
    rw [← hmc]
    exact content_replaced key newJson new.data files (files.dir_lt _ _ hm)
  have hdata : replaced.content d = old.data := by
    rw [← hdc]
    exact content_replaced key newJson new.data files (files.dir_lt _ _ hd)
  have hread := Prog.steps_exec FileOp.apply (readMetadata S m d) replaced
  have hexec : perform (readMetadata S m d) replaced = (.ok (some old), replaced) := by
    have hback : S.fromSlice (replaced.content m) = .ok old.metadata := by
      rw [hmeta]
      exact hS _ _ hold
    have hlen : (replaced.content d).length < 2 ^ 63 := hdata ▸ old.data_lt
    rw [perform_readMetadata hback old.data_lt hlen, entryOf_metadata hdata]
  simp only [perform] at hexec
  rw [hexec] at hread
  rcases run_reads (Apart S) (S := S) cache' ([(key, old)] ++ [(key, new)]) key
    (fun u hu => .of_idle hu 0) hread with ⟨after, hafter⟩
  have hrun := hbefore.append (hopening.append (hbetween.append hafter))
  exact ⟨_, _, hrun, rfl, by simp [Shared.reading]⟩

end Across

/-! ## On the example -/

theorem examples_room :
    (exampleText shortEntry.metadata).length + shortEntry.data.length +
      ((exampleText longEntry.metadata).length + longEntry.data.length) ≤ 1024 := by
  have hshort := length_exampleText_short
  have hlong := length_exampleText_long
  have hdata : shortEntry.data.length = 2 := rfl
  have hdata' : longEntry.data.length = 2 := rfl
  omega

/-- The body of the later entry is served under the headers of the earlier one. -/
theorem not_untorn_replaced :
    ∃ events t, Run (SharedStep exampleSerde) (.init 1024) events t ∧ ¬ Untorn t := by
  rcases get_torn exampleSerde_roundTrip exampleSerde_short exampleSerde_long examples_room
    exampleKey with ⟨events, t, hrun, hputs, hget⟩
  refine ⟨events, t, hrun, ?_⟩
  intro huntorn
  rcases huntorn 0 exampleKey _ hget with hnone | ⟨entry, hfound, key, hmem, _⟩
  · cases hnone
  · have hentry : entryOf shortEntry.metadata longEntry.data longEntry.data_lt = entry := by
      cases hfound
      rfl
    rw [hputs, ← hentry] at hmem
    have hneither : entryOf shortEntry.metadata longEntry.data longEntry.data_lt ≠ shortEntry ∧
        entryOf shortEntry.metadata longEntry.data longEntry.data_lt ≠ longEntry := by
      decide
    simp [hneither] at hmem

theorem untorn_of_apart_across :
    ∃ events t, Run (Guarded (SharedStep exampleSerde) (Apart exampleSerde)) (.init 1024) events t ∧
      t.gets 0 = some ⟨exampleKey, .ret (.ok (some shortEntry))⟩ ∧ Untorn t := by
  rcases get_across_put exampleSerde_roundTrip exampleSerde_short exampleSerde_long examples_room
    exampleKey with ⟨events, t, hrun, _, hget⟩
  exact ⟨events, t, hrun, hget, untorn_of_apart exampleSerde_roundTrip hrun⟩

end Cache
end Squiddish
