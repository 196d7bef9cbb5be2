import Squiddish.Inflight.Handlers

/-!
# Locks — the operations of the registry, one access at a time

`inflight.rs` keeps the registry behind a lock for one writer or many readers.  `System` takes each
of its operations in one step.  Here an operation is a program over the accesses it makes while it
holds the lock, and whatever does not need the lock may happen between any two of them: bodies are
polled, receivers dropped, final messages sent, and the tasks of other downloads publish theirs.

* `Registry.joinOrStartDownload` and its siblings : the programs;
* `LockStep` : handlers and tasks that take the lock, make their accesses and let it go.

The list of chunks has a lock of its own, which is only taken under this one and for one access.
-/

namespace Squiddish
namespace Inflight

open Lib Cache Proxy

variable {ι : Type} {E : Env ι}

/-! ## The accesses -/

inductive RegistryOp
  /-- `downloads.get`. -/
  | get (key : CacheKey)
  /-- `state.sender.subscribe()`. -/
  | subscribe (d : Nat)
  /-- `state.accumulated.read().clone()`. -/
  | accumulated (d : Nat)
  /-- `state.meta_tx.subscribe()`. -/
  | subscribeMeta (d : Nat)
  /-- `downloads.insert`, with channels that are new. -/
  | insert (key : CacheKey)
  /-- `state.accumulated.write().push`. -/
  | push (d : Nat) (chunk : Bytes)
  /-- `state.sender.send`. -/
  | send (d : Nat) (chunk : Bytes)
  /-- `state.meta_tx.send`. -/
  | sendMeta (d : Nat) (r : ResponseMetaResult)
  /-- `downloads.remove`. -/
  | remove (key : CacheKey)
  /-- The fields of a removed entry are dropped in the order of their declaration. -/
  | dropSender (d : Nat)
  | dropMetaTx (d : Nat)

abbrev RegistryOp.Answer : RegistryOp → Type
  | .get _ | .remove _ => Option Nat
  | .subscribe _ => Receiver
  | .accumulated _ => List Bytes
  | .insert _ => Nat
  | _ => Unit

namespace DownloadState

def push (st : DownloadState) (chunk : Bytes) : DownloadState :=
  { st with accumulated := st.accumulated ++ [chunk] }

/-- The handle of the registry is dropped. -/
def dropSender (st : DownloadState) : DownloadState :=
  { st with sender := st.sender.dropSender }

def dropMetaTx (st : DownloadState) : DownloadState :=
  { st with metaTx := st.metaTx.dropSender }

end DownloadState

/-- What an access answers, and what it leaves. -/
def RegistryOp.apply : (op : RegistryOp) → Shared ι → op.Answer × Shared ι
  | .get key, sh => (sh.downloads key.hashHex, sh)
  | .subscribe d, sh => ((sh.states d).sender.subscribe, sh)
  | .accumulated d, sh => ((sh.states d).accumulated, sh)
  | .subscribeMeta d, sh => ((), sh.modifyState d DownloadState.subscribeMeta)
  | .insert key, sh => (sh.next, sh.register key)
  | .push d chunk, sh => ((), sh.modifyState d (fun st => st.push chunk))
  | .send d chunk, sh => ((), sh.modifyState d (fun st => st.report (.data chunk)))
  | .sendMeta d r, sh => ((), sh.modifyState d (fun st => st.publish r))
  | .remove key, sh =>
      (sh.downloads key.hashHex,
        { sh with downloads := Function.update sh.downloads key.hashHex none })
  | .dropSender d, sh => ((), sh.modifyState d DownloadState.dropSender)
  | .dropMetaTx d, sh => ((), sh.modifyState d DownloadState.dropMetaTx)

/-! ## The operations -/

abbrev RegistryProg (α : Type) := Prog RegistryOp.Answer α

namespace Registry

/-- What `join_or_start_download` does with the entry it has found. -/
def join (d : Nat) : RegistryProg DownloadAction :=
  .call (.subscribe d) fun receiver =>
    .call (.accumulated d) fun chunks =>
      .call (.subscribeMeta d) fun _ => .ret (.joined d receiver chunks)

def start (key : CacheKey) : RegistryProg DownloadAction :=
  .call (.insert key) fun d => .ret (.started d)

/-- `join_or_start_download`. -/
def joinOrStartDownload (key : CacheKey) : RegistryProg DownloadAction :=
  .call (.get key) fun
    | some d => join d
    | none => start key

/-- The operations that do nothing without an entry. -/
def withEntry (key : CacheKey) (body : Nat → RegistryProg Unit) : RegistryProg Unit :=
  .call (.get key) fun
    | some d => body d
    | none => .ret ()

/-- `set_response_meta` and `set_response_error`. -/
def publish (key : CacheKey) (r : ResponseMetaResult) : RegistryProg Unit :=
  withEntry key fun d => .call (.sendMeta d r) .ret

/-- `add_chunk`. -/
def addChunk (key : CacheKey) (chunk : Bytes) : RegistryProg Unit :=
  withEntry key fun d => .call (.push d chunk) fun _ => .call (.send d chunk) .ret

def dropEntry (d : Nat) : RegistryProg Unit :=
  .call (.dropSender d) fun _ => .call (.dropMetaTx d) .ret

/-- `complete_download`. -/
def completeDownload (key : CacheKey) : RegistryProg Unit :=
  .call (.remove key) fun
    | some d => dropEntry d
    | none => .ret ()

end Registry

/-! ### Without anybody else -/

section Alone

variable (sh : Shared ι) (key : CacheKey)

/-- From one end to the other `join_or_start_download` is the operation of the handler. -/
theorem performs_joinOrStartDownload (c : ι) :
    Performs c (.joinOrStart key) sh
      (Prog.exec RegistryOp.apply (Registry.joinOrStartDownload key) sh).1
      (Prog.exec RegistryOp.apply (Registry.joinOrStartDownload key) sh).2 := by
  cases hd : sh.downloads key.hashHex with
  | some d =>
      simp [Performs, Registry.joinOrStartDownload, Registry.join, RegistryOp.apply, hd]
  | none =>
      simp [Performs, Registry.joinOrStartDownload, Registry.start, RegistryOp.apply, hd]

theorem exec_publish (r : ResponseMetaResult) :
    (Prog.exec RegistryOp.apply (Registry.publish key r) sh).2 =
      (sh.toState.withDownload key (fun st => st.publish r)).shared := by
  cases hd : sh.downloads key.hashHex with
  | some d =>
      simp [Registry.publish, Registry.withEntry, RegistryOp.apply, State.withDownload,
        Shared.toState, State.shared, Shared.modifyState, hd]
  | none =>
      simp [Registry.publish, Registry.withEntry, RegistryOp.apply, State.withDownload,
        Shared.toState, State.shared, hd]

theorem exec_addChunk (chunk : Bytes) :
    (Prog.exec RegistryOp.apply (Registry.addChunk key chunk) sh).2 =
      (sh.toState.addChunk key chunk).shared := by
  cases hd : sh.downloads key.hashHex with
  | some d =>
      simp [Registry.addChunk, Registry.withEntry, RegistryOp.apply, State.addChunk,
        State.withDownload, Shared.toState, State.shared, Shared.modifyState, hd,
        DownloadState.push, DownloadState.report, DownloadState.addChunk]
  | none =>
      simp [Registry.addChunk, Registry.withEntry, RegistryOp.apply, State.addChunk,
        State.withDownload, Shared.toState, State.shared, hd]

theorem exec_completeDownload :
    (Prog.exec RegistryOp.apply (Registry.completeDownload key) sh).2 =
      (sh.toState.completeDownload key).shared := by
  cases hd : sh.downloads key.hashHex with
  | some d =>
      simp [Registry.completeDownload, Registry.dropEntry, RegistryOp.apply,
        State.completeDownload, State.withDownload, Shared.toState, State.shared,
        Shared.modifyState, hd, DownloadState.dropSender, DownloadState.dropMetaTx,
        DownloadState.unregister]
  | none =>
      simp [Registry.completeDownload, RegistryOp.apply, State.completeDownload,
        State.withDownload, Shared.toState, State.shared, hd]

end Alone

/-! ## The lock -/

/-- A task that holds the lock: what it has still to do, and what it has become when it lets the
lock go. -/
structure Section (ι : Type) where
  prog : RegistryProg Unit
  after : Task ι

inductive Writer (ι : Type)
  | client (c : ι) (prog : RegistryProg DownloadAction)
  | task (d : Nat) (sec : Section ι)

/-- Whoever writes is alone. -/
inductive RwLock (ι : Type)
  | read (readers : Nat → Option (Section ι))
  | written (writer : Writer ι)

namespace RwLock

def free : RwLock ι :=
  .read (fun _ => none)

/-- The task `d` is in an operation of the registry. -/
def Holds : RwLock ι → Nat → Prop
  | .read readers, d => readers d ≠ none
  | .written (.task d' _), d => d = d'
  | .written (.client _ _), _ => False

end RwLock

/-- What a task has to do under the lock for reading, with the entry it finds, and what becomes of
the task. -/
inductive ReadCall (E : Env ι) (d : Nat) (t : Task ι) :
    Action ι → (Nat → RegistryProg Unit) → Task ι → Prop
  | respond {resp : Response} :
      t.phase = .requested →
      ReadCall E d t (.respond d resp) (fun e => .call (.sendMeta e (.ok (metaOf resp))) .ret)
        { t with phase := .streaming, response := some resp }
  | chunk {resp : Response} {bytes : Bytes} :
      t.phase = .streaming → t.response = some resp →
      t.totalSize + bytes.length ≤ E.config.security.maxBodySize →
      ReadCall E d t (.chunk d bytes)
        (fun e => .call (.push e bytes) fun _ => .call (.send e bytes) .ret)
        (t.receive resp bytes)
  | publishError {e : ProxyError} :
      t.phase = .failed → t.failure = some e →
      ReadCall E d t (.publishError d)
        (fun e' => .call (.sendMeta e' (.error e.toText)) .ret)
        { t with phase := .errorPublished }

/-- The steps of tasks that are operations of the registry. -/
def Action.UsesRegistry : Action ι → Prop
  | .respond _ _ | .chunk _ _ | .publishError _ | .completeDownload _ => True
  | _ => False

/-- The task that moves. -/
def Action.task : Action ι → Option Nat
  | .fetch d | .respond d _ | .chunk d _ | .oversized d _ | .bodyEnd d | .store d _
  | .storeFailed d | .fail d _ | .publishError d | .sendError d | .sendComplete d | .panic d
  | .completeDownload d | .endTask d => some d
  | _ => none

/-! ## Steps -/

structure Locked (ι : Type) where
  world : World ι
  lock : RwLock ι

def Locked.init (E : Env ι) : Locked ι :=
  { world := .init E, lock := .free }

/-- Nobody who moves is in an operation of the registry, or begins one. -/
def Locked.Outside (l : Locked ι) : WorldAction ι → Prop
  | .call c => ∀ key next, l.world.threads c ≠ .running (.call (.joinOrStart key) next)
  | .move a => ¬ a.UsesRegistry ∧ ∀ d, a.task = some d → ¬ l.lock.Holds d
  | _ => True

inductive Party (ι : Type)
  | client (c : ι)
  | task (d : Nat)

inductive LockAction (ι : Type)
  | outside (a : WorldAction ι)
  /-- The lock is taken. -/
  | enter (p : Party ι)
  /-- One access. -/
  | access (p : Party ι)
  /-- The lock is let go. -/
  | leave (p : Party ι)

def World.setTask (w : World ι) (d : Nat) (t : Task ι) : World ι :=
  { w with shared := w.shared.spawn d t }

section Steps

variable [DecidableEq ι]

inductive LockStep (E : Env ι) : Locked ι → LockAction ι → Locked ι → Prop
  | outside {l : Locked ι} {a : WorldAction ι} {w' : World ι} :
      l.Outside a → WorldStep E l.world a w' →
      LockStep E l (.outside a) { l with world := w' }
  -- `join_or_start_download`, by the handler of a client
  | enterJoin {w : World ι} {c : ι} {key : CacheKey}
      {next : DownloadAction → HandlerProg (Outcome ClientResponse)} :
      w.threads c = .running (.call (.joinOrStart key) next) →
      LockStep E ⟨w, .free⟩ (.enter (.client c))
        ⟨w, .written (.client c (Registry.joinOrStartDownload key))⟩
  | accessJoin {w : World ι} {c : ι} {op : RegistryOp}
      {rest : op.Answer → RegistryProg DownloadAction} :
      LockStep E ⟨w, .written (.client c (.call op rest))⟩ (.access (.client c))
        ⟨{ w with shared := (op.apply w.shared).2 },
          .written (.client c (rest (op.apply w.shared).1))⟩
  | leaveJoin {w : World ι} {c : ι} {key : CacheKey} {action : DownloadAction}
      {next : DownloadAction → HandlerProg (Outcome ClientResponse)} :
      w.threads c = .running (.call (.joinOrStart key) next) →
      LockStep E ⟨w, .written (.client c (.ret action))⟩ (.leave (.client c))
        ⟨w.setThread c (.running (next action)), .free⟩
  -- `set_response_meta`, `add_chunk` and `set_response_error`, by tasks, any number at once
  | enterRead {w : World ι} {readers : Nat → Option (Section ι)} {d : Nat} {t after : Task ι}
      {a : Action ι} {body : Nat → RegistryProg Unit} :
      readers d = none → w.shared.tasks d = some t → ReadCall E d t a body after →
      LockStep E ⟨w, .read readers⟩ (.enter (.task d))
        ⟨w, .read (Function.update readers d (some ⟨Registry.withEntry t.key body, after⟩))⟩
  | accessRead {w : World ι} {readers : Nat → Option (Section ι)} {d : Nat} {op : RegistryOp}
      {rest : op.Answer → RegistryProg Unit} {after : Task ι} :
      readers d = some ⟨.call op rest, after⟩ →
      LockStep E ⟨w, .read readers⟩ (.access (.task d))
        ⟨{ w with shared := (op.apply w.shared).2 },
          .read (Function.update readers d (some ⟨rest (op.apply w.shared).1, after⟩))⟩
  | leaveRead {w : World ι} {readers : Nat → Option (Section ι)} {d : Nat} {after : Task ι} :
      readers d = some ⟨.ret (), after⟩ →
      LockStep E ⟨w, .read readers⟩ (.leave (.task d))
        ⟨w.setTask d after, .read (Function.update readers d none)⟩
  -- `complete_download`, by the guard of a task
  | enterComplete {w : World ι} {d : Nat} {t : Task ι} :
      w.shared.tasks d = some t →
      t.phase = .completeSent ∨ t.phase = .errorSent ∨ t.phase = .panicked →
      LockStep E ⟨w, .free⟩ (.enter (.task d))
        ⟨w, .written (.task d ⟨Registry.completeDownload t.key, { t with phase := .released }⟩)⟩
  | accessComplete {w : World ι} {d : Nat} {op : RegistryOp}
      {rest : op.Answer → RegistryProg Unit} {after : Task ι} :
      LockStep E ⟨w, .written (.task d ⟨.call op rest, after⟩)⟩ (.access (.task d))
        ⟨{ w with shared := (op.apply w.shared).2 },
          .written (.task d ⟨rest (op.apply w.shared).1, after⟩)⟩
  | leaveComplete {w : World ι} {d : Nat} {after : Task ι} :
      LockStep E ⟨w, .written (.task d ⟨.ret (), after⟩)⟩ (.leave (.task d))
        ⟨w.setTask d after, .free⟩

end Steps

end Inflight
end Squiddish
