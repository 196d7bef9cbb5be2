import Squiddish.Cache.Cuts
import Squiddish.Cache.Example

/-!
# Interruption — failed and interrupted writes never become cache hits, where faults are harmless

Over every run whose faults are harmless, a get finds nothing or an entry that was put as a whole.
A put that is refused a byte of its data is not harmless: it returns an error, and the gets that
follow serve what has been written.
-/

namespace Squiddish
namespace Cache

open Lib

/-! ## Every run -/

/-- The directory is intact between calls, and in a call it is where the call may be cut. -/
def Machine.Inv (S : Serde) (s : Machine) : Prop :=
  match s.process with
  | .stopped => Intact S s.puts s.files
  | .idle cache => Intact S s.puts s.files ∧ Remembers s.puts cache
  | .running call rest faulted =>
      Prog.Holds (Performs call.allowed) (call.atCut S s.puts) (call.Over S s.puts) rest s.files ∧
        (faulted = false →
          Prog.Holds (Performs (fun _ _ => False)) (fun _ _ => True)
            (fun a _ => call.Answered a) rest s.files)

theorem WasPut.mono {puts : List (CacheKey × CacheEntry)} {key : CacheKey} {entry : CacheEntry}
    (h : WasPut puts key entry) (more : List (CacheKey × CacheEntry)) :
    WasPut (puts ++ more) key entry := by
  rcases h with ⟨key', hmem, hhash⟩
  exact ⟨key', List.mem_append_left _ hmem, hhash⟩

theorem Intact.mono {S : Serde} {puts : List (CacheKey × CacheEntry)} {s : FileStore Path}
    (h : Intact S puts s) (more : List (CacheKey × CacheEntry)) :
    Intact S (puts ++ more) s := by
  intro key metaJson data hpair
  rcases h key metaJson data hpair with ⟨entry, hput, hrest⟩
  exact ⟨entry, hput.mono more, hrest⟩

theorem Remembers.mono {puts : List (CacheKey × CacheEntry)} {cache : TieredCache}
    (h : Remembers puts cache) (more : List (CacheKey × CacheEntry)) :
    Remembers (puts ++ more) cache :=
  fun key entry hmem => (h key entry hmem).mono more

/-- A process may stop where no put is exposed. -/
theorem Machine.Inv.intact {S : Serde} {s : Machine} (h : s.Inv S) (hharmless : Harmless s) :
    Intact S s.puts s.files := by
  cases hproc : s.process with
  | stopped =>
      simpa [Machine.Inv, hproc] using h
  | idle cache =>
      have hidle : Intact S s.puts s.files ∧ Remembers s.puts cache := by
        simpa [Machine.Inv, hproc] using h
      exact hidle.1
  | running call rest faulted =>
      have hholds : Prog.Holds (Performs call.allowed) (call.atCut S s.puts)
          (call.Over S s.puts) rest s.files := by
        rw [Machine.Inv, hproc] at h
        exact h.1
      cases rest with
      | ret a =>
          exact hholds.intact
      | call op next =>
          rcases hholds.1 with hintact | ⟨key, entry, hput, hexposed⟩
          · exact hintact
          · exact absurd hexposed (hharmless call _ faulted key entry op hproc hput rfl)

theorem MachineStep.inv {S : Serde} (hS : S.RoundTrip) {s t : Machine} {event : Event}
    (hstep : MachineStep S s event t) (hfault : FaultsHarmless s event) (h : s.Inv S) :
    t.Inv S := by
  cases hstep with
  | @start maxSize walk hproc _ _ =>
      have hintact : Intact S s.puts s.files := by
        simpa [Machine.Inv, hproc] using h
      have hcache : Remembers s.puts (.ofDisk ⟨maxSize, 0, []⟩) := by
        intro key entry hmem
        simp [TieredCache.ofDisk] at hmem
      exact ⟨call_holds hS hintact hcache (by simp [Call.entryPut]),
        fun _ => call_answered hS hintact hcache _⟩
  | @call cache call hproc _ =>
      have hidle : Intact S s.puts s.files ∧ Remembers s.puts cache := by
        simpa [Machine.Inv, hproc] using h
      have hintact := hidle.1.mono call.entryPut.toList
      -- the entry of a put counts as put from the moment the call begins
      have hcache := hidle.2.mono call.entryPut.toList
      refine ⟨call_holds hS hintact hcache ?_, fun _ => call_answered hS hintact hcache _⟩
      intro key entry hput
      exact ⟨key, by simp [hput], rfl⟩
  | @perform call op next faulted r files now hproc happly =>
      rw [Machine.Inv, hproc] at h
      exact ⟨h.1.2 r files (.inl ⟨now, happly⟩),
        fun hfaulted => (h.2 hfaulted).2 r files (.inl ⟨now, happly⟩)⟩
  | @refuse call op next faulted e hproc =>
      rw [Machine.Inv, hproc] at h
      -- the refusal is harmless, so the put is not exposed where it strikes
      refine ⟨h.1.2 (.error e) s.files (.inr ⟨⟨⟨e, rfl⟩, rfl⟩, ?_⟩), by simp⟩
      intro key entry hput
      exact hfault call _ faulted key entry op hproc hput rfl
  | @finish call reply cache faulted hproc =>
      rw [Machine.Inv, hproc] at h
      have hover : call.Over S s.puts (reply, cache) s.files := h.1
      cases cache with
      | none =>
          exact hover.intact
      | some cache =>
          exact ⟨hover.intact, hover.remembers cache rfl⟩
  | stop =>
      exact h.intact hfault
  | @drop cache key hproc =>
      have hidle : Intact S s.puts s.files ∧ Remembers s.puts cache := by
        simpa [Machine.Inv, hproc] using h
      exact ⟨hidle.1, hidle.2.forget key⟩

theorem Machine.Inv.genuine {S : Serde} {s : Machine} (h : s.Inv S) : Genuine s := by
  intro key now later rest faulted r cache hproc hrest
  subst hrest
  rw [Machine.Inv, hproc] at h
  refine ⟨?_, ?_⟩
  · intro entry hentry
    exact h.1.found key now later r rfl rfl entry hentry
  · intro hfaulted
    exact h.2 hfaulted key now later r rfl rfl

/-- In every run whose faults are harmless, a get answers with nothing or with an entry that was
put as a whole. -/
theorem genuine_of_faultsHarmless {S : Serde} (hS : S.RoundTrip) {now : Nat}
    {events : List Event} {t : Machine}
    (hrun : Run (Guarded (MachineStep S) FaultsHarmless) (.init now) events t) : Genuine t := by
  have hinv : t.Inv S := by
    refine hrun.invariant (I := Machine.Inv S) ?_ ?_
    · intro s event u hs hstep
      exact hstep.1.inv hS hstep.2 hs
    · intro key metaJson data hpair
      have hnone : (none : Option Bytes) = some metaJson := congrArg Prod.fst hpair
      cases hnone
  exact hinv.genuine

/-! ## Calls without faults -/

section Calls

/-- Runs in which every fault is harmless. -/
abbrev SafeRun (S : Serde) : Machine → List Event → Machine → Prop :=
  Run (Guarded (MachineStep S) FaultsHarmless)

/-- The operations of a call are performed one after another. -/
theorem run_of_steps (S : Serde) (call : Call) (faulted : Bool)
    (puts : List (CacheKey × CacheEntry))
    {c d : DiskProg (Reply × Option TieredCache) × FileStore Path}
    (h : Relation.ReflTransGen (Prog.Step (Prog.Does FileOp.apply)) c d) :
    ∃ events, SafeRun S
      { files := c.2, process := .running call c.1 faulted, puts := puts } events
      { files := d.2, process := .running call d.1 faulted, puts := puts } := by
  induction h with
  | refl =>
      exact ⟨[], .nil _⟩
  | tail _ hstep ih =>
      rcases ih with ⟨events, hrun⟩
      cases hstep with
      | @call op next s t r hr =>
          have happly : op.apply (s.setClock s.clock) = (r, t) := hr
          exact ⟨_, hrun.snoc ⟨.perform rfl happly, trivial⟩⟩

theorem run_call {S : Serde} {call : Call} {cache : TieredCache} {files files' : FileStore Path}
    (puts : List (CacheKey × CacheEntry)) {a : Reply × Option TieredCache}
    (h : perform (call.run S cache) files = (a, files')) :
    ∃ events, SafeRun S
      { files := files, process := .running call (call.run S cache) false, puts := puts } events
      { files := files', process := .running call (.ret a) false, puts := puts } := by
  have hsteps := Prog.steps_exec FileOp.apply (call.run S cache) files
  have hexec : Prog.exec FileOp.apply (call.run S cache) files = (a, files') := h
  rw [hexec] at hsteps
  exact run_of_steps S call false puts hsteps

theorem step_call (S : Serde) (files : FileStore Path) (cache : TieredCache)
    (puts : List (CacheKey × CacheEntry)) (call : Call)
    (hcall : ∀ maxSize walk, call ≠ .start maxSize walk) :
    Guarded (MachineStep S) FaultsHarmless
      { files := files, process := .idle cache, puts := puts } (.call call)
      { files := files
        process := .running call (call.run S cache) false
        puts := puts ++ call.entryPut.toList } :=
  ⟨.call rfl hcall, trivial⟩

theorem step_finish (S : Serde) (files : FileStore Path) (call : Call) (reply : Reply)
    (cache : TieredCache) (faulted : Bool) (puts : List (CacheKey × CacheEntry)) :
    Guarded (MachineStep S) FaultsHarmless
      { files := files, process := .running call (.ret (reply, some cache)) faulted, puts := puts }
      .finish { files := files, process := .idle cache, puts := puts } :=
  ⟨MachineStep.finish (s := { files := files
                              process := .running call (.ret (reply, some cache)) faulted
                              puts := puts }) rfl, trivial⟩

/-- A process is started on an empty directory. -/
theorem run_open (S : Serde) (maxSize : Nat) :
    ∃ events, SafeRun S (.init 0) events
      { files := FileStore.empty 0
        process := .idle (.ofDisk { maxSize := maxSize, currentSize := 0, evictionOrder := [] })
        puts := [] } := by
  let cache : TieredCache := .ofDisk { maxSize := maxSize, currentSize := 0, evictionOrder := [] }
  have hnew : perform ((Call.start maxSize []).run S cache) (FileStore.empty 0) =
      ((.done (.ok ()), some cache), FileStore.empty 0) := by
    have hopen := perform_new_empty maxSize 0
    simp only [Call.run, perform, Prog.exec_bind] at hopen ⊢
    rw [hopen]
    rfl
  rcases run_call [] hnew with ⟨events, hrun⟩
  refine ⟨.start maxSize [] :: (events ++ [.finish]), .cons ⟨?_, trivial⟩ (hrun.snoc ?_)⟩
  · exact .start rfl List.nodup_nil (by simp)
  · exact step_finish S _ _ _ _ _ _

end Calls

/-! ## A write that is cut -/

section Cut

/-- The program gets as far as the operation, in the state `t`, and ends with `a e` when this is
refused. -/
def ReachesOp {α : Type} (p : DiskProg α) (s : FileStore Path) (op : FileOp Path)
    (t : FileStore Path) (a : IoError → α) : Prop :=
  ∃ next, Relation.ReflTransGen (Prog.Step (Prog.Does FileOp.apply)) (p, s) (.call op next, t) ∧
    ∀ e, next (.error e) = .ret (a e)

theorem ReachesOp.bind {α β : Type} {p : DiskProg α} {s t : FileStore Path} {op : FileOp Path}
    {a : IoError → α} (h : ReachesOp p s op t a) {q : α → DiskProg β} {a' : IoError → β}
    (hq : ∀ e, q (a e) = .ret (a' e)) : ReachesOp (p >>= q) s op t a' := by
  rcases h with ⟨next, hsteps, hnext⟩
  refine ⟨fun r => next r >>= q, Prog.steps_bind hsteps q, ?_⟩
  intro e
  show next (.error e) >>= q = .ret (a' e)
  rw [hnext e, Prog.ret_bind, hq e]

theorem ReachesOp.of_steps {α : Type} {p p' : DiskProg α} {s s' t : FileStore Path}
    {op : FileOp Path} {a : IoError → α}
    (hsteps : Relation.ReflTransGen (Prog.Step (Prog.Does FileOp.apply)) (p, s) (p', s'))
    (h : ReachesOp p' s' op t a) : ReachesOp p s op t a := by
  rcases h with ⟨next, hrest, hnext⟩
  exact ⟨next, hsteps.trans hrest, hnext⟩

theorem reachesWrite_writeFile (p : Path) (b b' : UInt8) (rest : Bytes) (s : FileStore Path) :
    ReachesOp (FileProg.writeFile p (b :: b' :: rest)) s (.write (s.create p).1 b')
      ((s.create p).2.write (s.create p).1 b) (fun e => .error e) :=
  ⟨_, .head (.call rfl) (.head (.call rfl) .refl), fun _ => rfl⟩

variable {S : Serde} {key : CacheKey} {entry : CacheEntry} {metaJson : Bytes} {b b' : UInt8}
  {rest : Bytes}

theorem reachesWrite_writeEntry (key : CacheKey) (metaJson : Bytes)
    (hdata : entry.data = b :: b' :: rest) (s : FileStore Path) :
    ∃ f t, ReachesOp (writeEntry key entry metaJson) s (.write f b') t
        (fun e => .error (ioFailure e)) ∧
      pair t key = (some metaJson, some [b]) := by
  let u := s.save key.metaPath metaJson
  refine ⟨(u.create key.dataPath).1, (u.create key.dataPath).2.write (u.create key.dataPath).1 b,
    ?_, ?_⟩
  · -- the directories, then the metadata as a whole
    refine .of_steps (.single (.call rfl)) ?_
    refine .of_steps (Prog.steps_bind_exec FileOp.apply
      (FileProg.writeFile key.metaPath metaJson) _ s) ?_
    simp only [FileProg.exec_writeFile]
    rw [hdata]
    exact (reachesWrite_writeFile key.dataPath b b' rest u).bind (fun _ => rfl)
  · have hdir := FileStore.dir_create_self (s := u) (p := key.dataPath)
    have hself := FileStore.file_writeAll_self [b] hdir
    have hother := FileStore.file_writeAll_of_ne [b] hdir
      (q := key.metaPath) CacheKey.metaPath_ne_dataPath
    rw [FileStore.content_create_self] at hself
    rw [FileStore.file_create_of_ne CacheKey.metaPath_ne_dataPath,
      FileStore.file_save_self] at hother
    exact Prod.ext hother hself

/-- A put with room for its entry removes the old files of the key before it begins to write. -/
theorem reachesOp_put (key : CacheKey) {cache : DiskCache}
    (hjson : S.toVec entry.metadata = .ok metaJson)
    (hroom : cache.currentSize + (metaJson.length + entry.data.length) ≤ cache.maxSize)
    {s t : FileStore Path} {op : FileOp Path}
    (hwrite : ReachesOp (writeEntry key entry metaJson) (dropFiles key.filePath s) op t
      (fun e => .error (ioFailure e))) :
    ReachesOp (DiskCache.put S key entry cache) s op t (fun e => (.error (ioFailure e),
      if 0 < s.size key.metaPath + s.size key.dataPath then cache.retainOther key.hashHex
      else cache)) := by
  rw [put_of_fits hjson (by omega), evictIfNeeded, if_pos hroom, Prog.ret_bind]
  show ReachesOp (DiskCache.replaceEntry key entry metaJson cache) s op t _
  -- nothing is evicted; the old files of the key are removed, and writing begins
  refine .of_steps (Prog.steps_bind_exec FileOp.apply (removeEntry key) _ s) ?_
  have hremove := perform_removeEntry key s
  simp only [perform] at hremove
  rw [hremove]
  exact hwrite.bind (fun _ => rfl)

/-- What a get makes of the metadata and a part of the data. -/
theorem perform_get_cut (hS : S.RoundTrip) (hjson : S.toVec entry.metadata = .ok metaJson)
    {data : Bytes} (hlen : data.length < 2 ^ 63) {s : FileStore Path}
    (hpair : pair s key = (some metaJson, some data)) (cache : TieredCache)
    (hmem : cache.memory key = none) :
    perform (cache.get S key entry.timestamp entry.timestamp) s =
      ((.ok (some (entryOf entry.metadata data hlen)),
        cache.remember key (entryOf entry.metadata data hlen)), s) := by
  have hget : perform (DiskCache.get S key) s =
      (.ok (some (entryOf entry.metadata data hlen)), s) :=
    Prod.ext (get_of_files hpair (hS _ _ hjson) entry.data_lt hlen) (perform_get_store S key s)
  have hexp : (entryOf entry.metadata data hlen).isExpired entry.timestamp = false := by
    simp [CacheEntry.isExpired, elapsedSecs, entryOf, CacheEntry.metadata]
  simp [TieredCache.get, hmem, TieredCache.getFromDisk, hget, hexp]

theorem perform_call_get {cache cache' : TieredCache} {now later : Nat} {s t : FileStore Path}
    {r : Outcome (Option CacheEntry)}
    (h : perform (cache.get S key now later) s = ((r, cache'), t)) :
    perform ((Call.get key now later).run S cache) s = ((.found r, some cache'), t) := by
  simp only [Call.run, perform, Prog.exec_bind] at h ⊢
  rw [h]
  rfl

theorem perform_call_diskPut {cache : TieredCache} {disk : DiskCache} {s t : FileStore Path}
    {r : Outcome Unit} (h : perform (DiskCache.put S key entry cache.disk) s = ((r, disk), t)) :
    perform ((Call.diskPut key entry).run S cache) s =
      ((.done r, some { cache with disk := disk }), t) := by
  simp only [Call.run, perform, Prog.exec_bind] at h ⊢
  rw [h]
  rfl

/-- A put into an empty cache that is refused an operation ends with an error. -/
theorem run_refused_put {op : FileOp Path} {files : FileStore Path} {maxSize : Nat}
    (hjson : S.toVec entry.metadata = .ok metaJson)
    (hroom : metaJson.length + entry.data.length ≤ maxSize) (key : CacheKey)
    (hwrite : ReachesOp (writeEntry key entry metaJson)
      (dropFiles key.filePath (FileStore.empty 0)) op files (fun e => .error (ioFailure e)))
    (e : IoError) :
    ∃ events s t disk, SafeRun S (.init 0) events s ∧ s.files = files ∧
      (∃ next, s.process = .running (.diskPut key entry) (.call op next) false) ∧
      MachineStep S s (.refuse e) t ∧ disk.maxSize = maxSize ∧ disk.currentSize = 0 ∧
      t = { files := files
            process := .running (.diskPut key entry)
              (.ret (.done (.error (ioFailure e)), some (.ofDisk disk))) true
            puts := [(key, entry)] } := by
  let cache : TieredCache := .ofDisk { maxSize := maxSize, currentSize := 0, evictionOrder := [] }
  rcases run_open S maxSize with ⟨opening, hopen⟩
  have hroom' : cache.disk.currentSize + (metaJson.length + entry.data.length) ≤
      cache.disk.maxSize := by
    simpa [cache, TieredCache.ofDisk] using hroom
  have hreach : ReachesOp ((Call.diskPut key entry).run S cache) (FileStore.empty 0) op files
      (fun e => (.done (.error (ioFailure e)), some (.ofDisk cache.disk))) :=
    (reachesOp_put key hjson hroom' hwrite).bind (fun _ => rfl)
  rcases hreach with ⟨next, hsteps, hnext⟩
  rcases run_of_steps S (.diskPut key entry) false [(key, entry)] hsteps with ⟨writing, hreached⟩
  have hput := step_call S (FileStore.empty 0) cache [] (.diskPut key entry) (by simp)
  refine ⟨_, _, _, cache.disk, hopen.append (Run.cons hput hreached), rfl, ⟨next, rfl⟩,
    .refuse rfl, rfl, rfl, ?_⟩
  rw [hnext e]

/-- A put that is refused the second byte of the data leaves the metadata and one byte. -/
theorem run_failed_put (hjson : S.toVec entry.metadata = .ok metaJson)
    (hdata : entry.data = b :: b' :: rest) {maxSize : Nat}
    (hroom : metaJson.length + entry.data.length ≤ maxSize) (key : CacheKey) (e : IoError) :
    ∃ events files cache,
      Run (MachineStep S) (.init 0) events
        { files := files
          process := .running (.diskPut key entry)
            (.ret (.done (.error (ioFailure e)), some cache)) true
          puts := [(key, entry)] } ∧
      pair files key = (some metaJson, some [b]) ∧ cache.memory key = none := by
  rcases reachesWrite_writeEntry key metaJson hdata
    (dropFiles key.filePath (FileStore.empty 0)) with ⟨f, files, hwrite, hpair⟩
  rcases run_refused_put hjson hroom key hwrite e with
    ⟨events, s, t, disk, hrun, -, -, hrefuse, -, -, rfl⟩
  exact ⟨_, files, .ofDisk disk, hrun.of_guarded.snoc hrefuse, hpair, rfl⟩

/-- A get after a call that has left the metadata and a part of the data. -/
theorem run_get_cut (hS : S.RoundTrip) (hjson : S.toVec entry.metadata = .ok metaJson)
    {data : Bytes} (hlen : data.length < 2 ^ 63) {files : FileStore Path} {cache : TieredCache}
    (hpair : pair files key = (some metaJson, some data)) (hmem : cache.memory key = none)
    (call : Call) (reply : Reply) (faulted : Bool) (puts : List (CacheKey × CacheEntry)) :
    ∃ events t,
      Run (MachineStep S)
        { files := files
          process := .running call (.ret (reply, some cache)) faulted
          puts := puts } events t ∧
      t.puts = puts ∧
      ∃ cache', t.process = .running (.get key entry.timestamp entry.timestamp)
        (.ret (.found (.ok (some (entryOf entry.metadata data hlen))), cache')) false := by
  have hget := perform_call_get (perform_get_cut hS hjson hlen hpair cache hmem)
  rcases run_call (puts ++ []) hget with ⟨reading, hread⟩
  have hserved := Run.cons (step_finish S files call reply cache faulted puts)
    (.cons (step_call S _ _ _ _ (by simp)) hread)
  exact ⟨_, _, hserved.of_guarded, List.append_nil puts, _, rfl⟩

/-- A put that ends with an error after one byte of the data, and a get that serves this byte. -/
theorem get_after_failed_put (hS : S.RoundTrip) (hjson : S.toVec entry.metadata = .ok metaJson)
    (hdata : entry.data = b :: b' :: rest) {maxSize : Nat}
    (hroom : metaJson.length + entry.data.length ≤ maxSize) (key : CacheKey) (e : IoError) :
    ∃ events events' s t, Run (MachineStep S) (.init 0) events s ∧
      (∃ cache, s.process = .running (.diskPut key entry)
        (.ret (.done (.error (ioFailure e)), cache)) true) ∧
      Run (MachineStep S) s events' t ∧ ¬ Genuine t := by
  rcases run_failed_put hjson hdata hroom key e with ⟨events, files, cache, hfailed, hpair, hmem⟩
  have hlen : [b].length < 2 ^ 63 := by
    simp
  rcases run_get_cut hS hjson hlen hpair hmem (.diskPut key entry) (.done (.error (ioFailure e)))
    true [(key, entry)] with ⟨events', t, hserved, hputs, cache', hproc⟩
  refine ⟨events, events', _, t, hfailed, ⟨_, rfl⟩, hserved, ?_⟩
  intro hgenuine
  rcases (hgenuine key _ _ _ _ _ _ hproc rfl).1 _ rfl with ⟨key', hmem', _⟩
  have hcut : entryOf entry.metadata [b] hlen = entry := by
    have hpairs : (key', entryOf entry.metadata [b] hlen) = (key, entry) := by
      simpa [hputs] using hmem'
    exact congrArg Prod.snd hpairs
  have hbytes : [b] = entry.data := congrArg CacheEntry.data hcut
  rw [hdata] at hbytes
  simp at hbytes

/-- A put without faults, and a get that finds the entry. -/
theorem run_put_get (hS : S.RoundTrip) (hjson : S.toVec entry.metadata = .ok metaJson)
    {disk : DiskCache}
    (hroom : disk.currentSize + (metaJson.length + entry.data.length) ≤ disk.maxSize)
    (key : CacheKey) (files : FileStore Path) (puts : List (CacheKey × CacheEntry)) :
    ∃ events t,
      SafeRun S { files := files, process := .idle (.ofDisk disk), puts := puts } events t ∧
      ∃ cache, t.process = .running (.get key entry.timestamp entry.timestamp)
        (.ret (.found (.ok (some entry)), cache)) false := by
  let files' : FileStore Path := saveEntry key metaJson entry.data (dropFiles key.filePath files)
  have hexec : ∃ disk', perform (DiskCache.put S key entry disk) files =
      ((.ok (), disk'), files') :=
    ⟨_, perform_put_of_room hjson hroom key files⟩
  rcases hexec with ⟨disk', hexec⟩
  have hpair : pair files' key = (some metaJson, some entry.data) :=
    pair_saveEntry_self key metaJson entry.data _
  have hget := perform_get_cut hS hjson entry.data_lt hpair (.ofDisk disk') rfl
  rw [entryOf_metadata rfl] at hget
  have hput : perform ((Call.diskPut key entry).run S (.ofDisk disk)) files =
      ((.done (.ok ()), some (.ofDisk disk')), files') := perform_call_diskPut hexec
  rcases run_call (puts ++ [(key, entry)]) hput with ⟨writing, hwrite⟩
  rcases run_call (puts ++ [(key, entry)] ++ []) (perform_call_get hget) with ⟨reading, hread⟩
  have hrun := Run.cons (step_call S files (.ofDisk disk) puts (.diskPut key entry) (by simp))
    (hwrite.append (.cons (step_finish S _ _ _ _ _ _)
      (.cons (step_call S _ _ _ (.get key entry.timestamp entry.timestamp) (by simp)) hread)))
  exact ⟨_, _, hrun, _, rfl⟩

/-- A put that is refused its directory fails and does no harm, and the next one succeeds. -/
theorem get_after_refused_put (hS : S.RoundTrip) (hjson : S.toVec entry.metadata = .ok metaJson)
    {maxSize : Nat} (hroom : metaJson.length + entry.data.length ≤ maxSize) (key : CacheKey)
    (e : IoError) :
    ∃ events events' t, SafeRun S (.init 0) (events ++ .refuse e :: events') t ∧
      ∃ cache, t.process = .running (.get key entry.timestamp entry.timestamp)
        (.ret (.found (.ok (some entry)), cache)) false := by
  have hwrite : ReachesOp (writeEntry key entry metaJson)
      (dropFiles key.filePath (FileStore.empty 0)) (.createDirAll key.filePath.dropLast) _
      (fun e => .error (ioFailure e)) := ⟨_, .refl, fun _ => rfl⟩
  rcases run_refused_put hjson hroom key hwrite e with
    ⟨events, s, t, disk, hrun, -, ⟨next, hproc⟩, hrefuse, hmax, hcurrent, rfl⟩
  -- only a directory was missing when the fault struck
  have hharmless : Harmless s := by
    intro call rest faulted key' entry' op hproc' _ hpending hexposed
    rw [hproc] at hproc'
    cases hproc'
    cases hpending
    exact hexposed.2
  have hroom' : disk.currentSize + (metaJson.length + entry.data.length) ≤ disk.maxSize := by
    omega
  rcases run_put_get hS hjson hroom' key _ [(key, entry)] with ⟨events', u, hserved, hfound⟩
  exact ⟨events, .finish :: events', u,
    hrun.append (.cons ⟨hrefuse, hharmless⟩ (.cons (step_finish S _ _ _ _ _ _) hserved)), hfound⟩

end Cut

/-! ## On the example -/

def noSpace : IoError where
  notFound := false
  text := "No space left on device (os error 28)".toList

theorem shortEntry_room :
    (exampleText shortEntry.metadata).length + shortEntry.data.length ≤ 1024 := by
  have htext := length_exampleText_short
  have hdata : shortEntry.data.length = 2 := rfl
  omega

/-- The disk is full after the first byte of the data. -/
theorem not_genuine_failed_put :
    ∃ events events' s t, Run (MachineStep exampleSerde) (.init 0) events s ∧
      (∃ cache, s.process = .running (.diskPut exampleKey shortEntry)
        (.ret (.done (.error (ioFailure noSpace)), cache)) true) ∧
      Run (MachineStep exampleSerde) s events' t ∧ ¬ Genuine t :=
  get_after_failed_put exampleSerde_roundTrip exampleSerde_short rfl shortEntry_room exampleKey
    noSpace

/-- A put is refused its directory, and a get finds what the next put has stored. -/
theorem genuine_of_faultsHarmless_refused :
    ∃ events events' t, Run (Guarded (MachineStep exampleSerde) FaultsHarmless) (.init 0)
        (events ++ .refuse noSpace :: events') t ∧
      (∃ cache, t.process = .running (.get exampleKey 0 0)
        (.ret (.found (.ok (some shortEntry)), cache)) false) ∧ Genuine t := by
  rcases get_after_refused_put exampleSerde_roundTrip exampleSerde_short shortEntry_room exampleKey
    noSpace with ⟨events, events', t, hrun, hfound⟩
  exact ⟨events, events', t, hrun, hfound, genuine_of_faultsHarmless exampleSerde_roundTrip hrun⟩

end Cache
end Squiddish
