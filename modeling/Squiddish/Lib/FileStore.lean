import Mathlib.Algebra.BigOperators.Group.Finset.Basic
import Squiddish.Lib.Prog
import Squiddish.Lib.Text

/-!
# FileStore — files behind names, and programs that work on them

A name of the directory leads to a file; a file keeps its bytes when its name is removed, so
whoever has opened it can still read it.  Bytes are written at the end of a file, one at a time:
a write may be cut, or seen, after any number of them.

* `FileStore P` : the files and the directory over names `P`;
* `FileOp P`    : the operations a program may call, with their answers;
* `file`, `size`, `total` : what a name leads to, and how long it is, alone and summed up.
-/

namespace Squiddish
namespace Lib

/-! ## The store -/

structure FileStore (P : Type) [DecidableEq P] where
  dir : P → Option Nat
  names : Finset P
  content : Nat → List UInt8
  modified : Nat → Nat
  next : Nat
  clock : Nat
  mem_names : ∀ p, p ∈ names ↔ (dir p).isSome = true
  dir_lt : ∀ p f, dir p = some f → f < next
  dir_inj : ∀ p q f, dir p = some f → dir q = some f → p = q

namespace FileStore

variable {P : Type} [DecidableEq P] (s : FileStore P)

def empty (clock : Nat) : FileStore P :=
  { dir := fun _ => none
    names := ∅
    content := fun _ => []
    modified := fun _ => 0
    next := 0
    clock := clock
    mem_names := by simp
    dir_lt := by simp
    dir_inj := by simp }

/-- The time of day changes. -/
def setClock (now : Nat) : FileStore P :=
  { s with clock := now }

/-- An existing file loses its bytes. -/
def truncate (f : Nat) : FileStore P :=
  { s with
    content := Function.update s.content f []
    modified := Function.update s.modified f s.clock }

/-- A new file gets the name `p`. -/
def link (p : P) : FileStore P :=
  { dir := Function.update s.dir p (some s.next)
    names := insert p s.names
    content := Function.update s.content s.next []
    modified := Function.update s.modified s.next s.clock
    next := s.next + 1
    clock := s.clock
    mem_names := by
      intro q
      by_cases hq : q = p
      · simp [hq]
      · simp [hq, s.mem_names q]
    dir_lt := by
      intro q f hf
      by_cases hq : q = p
      -- the new number is below the next one, as all old ones are
      · have hnext : s.next = f := by
          simpa [hq] using hf
        omega
      · have hold : s.dir q = some f := by
          simpa [hq] using hf
        have hlt := s.dir_lt q f hold
        omega
    dir_inj := by
      intro q r f hf hg
      by_cases hq : q = p
      · by_cases hr : r = p
        · rw [hq, hr]
        -- the new number belongs to no old name
        · have hnext : s.next = f := by
            simpa [hq] using hf
          have hold : s.dir r = some f := by
            simpa [hr] using hg
          have hlt := s.dir_lt r f hold
          omega
      · by_cases hr : r = p
        · have hnext : s.next = f := by
            simpa [hr] using hg
          have hold : s.dir q = some f := by
            simpa [hq] using hf
          have hlt := s.dir_lt q f hold
          omega
        · exact s.dir_inj q r f (by simpa [hq] using hf) (by simpa [hr] using hg) }

/-- The name `p` is removed; its file stays. -/
def unlink (p : P) : FileStore P :=
  { s with
    dir := Function.update s.dir p none
    names := s.names.erase p
    mem_names := by
      intro q
      by_cases hq : q = p
      · simp [hq]
      · simp [hq, s.mem_names q]
    dir_lt := by
      intro q f hf
      by_cases hq : q = p
      · simp [hq] at hf
      · exact s.dir_lt q f (by simpa [hq] using hf)
    dir_inj := by
      intro q r f hf hg
      by_cases hq : q = p
      · simp [hq] at hf
      · by_cases hr : r = p
        · simp [hr] at hg
        · exact s.dir_inj q r f (by simpa [hq] using hf) (by simpa [hr] using hg) }

/-- One byte is written at the end of a file. -/
def write (f : Nat) (b : UInt8) : FileStore P :=
  { s with
    content := Function.update s.content f (s.content f ++ [b])
    modified := Function.update s.modified f s.clock }

def writeAll (f : Nat) (bytes : List UInt8) : FileStore P :=
  bytes.foldl (fun t b => t.write f b) s

/-- Create a file, or empty the one that has the name already. -/
def create (p : P) : Nat × FileStore P :=
  match s.dir p with
  | some f => (f, s.truncate f)
  | none => (s.next, s.link p)

/-- A file of this name with these bytes and no others. -/
def save (p : P) (bytes : List UInt8) : FileStore P :=
  (s.create p).2.writeAll (s.create p).1 bytes

/-- What stands in the file of this name. -/
def file (p : P) : Option (List UInt8) :=
  (s.dir p).map s.content

def size (p : P) : Nat :=
  ((s.file p).map List.length).getD 0

def modifiedAt (p : P) : Nat :=
  ((s.dir p).map s.modified).getD 0

/-- The length of all files whose name is counted. -/
def total (counted : P → Bool) : Nat :=
  ∑ p ∈ s.names, if counted p then s.size p else 0

/-! ## What the operations leave -/

section Frame

variable {s} {p q : P} {f g : Nat} {b : UInt8}

@[simp] theorem dir_truncate : (s.truncate f).dir = s.dir :=
  rfl

@[simp] theorem dir_write : (s.write f b).dir = s.dir :=
  rfl

@[simp] theorem dir_setClock {now : Nat} : (s.setClock now).dir = s.dir :=
  rfl

@[simp] theorem content_setClock {now : Nat} : (s.setClock now).content = s.content :=
  rfl

@[simp] theorem next_setClock {now : Nat} : (s.setClock now).next = s.next :=
  rfl

@[simp] theorem next_truncate : (s.truncate f).next = s.next :=
  rfl

@[simp] theorem next_write : (s.write f b).next = s.next :=
  rfl

@[simp] theorem next_unlink : (s.unlink p).next = s.next :=
  rfl

@[simp] theorem next_link : (s.link p).next = s.next + 1 :=
  rfl

@[simp] theorem content_unlink : (s.unlink p).content = s.content :=
  rfl

@[simp] theorem dir_link_self : (s.link p).dir p = some s.next := by
  simp [link]

theorem dir_link_of_ne (h : q ≠ p) : (s.link p).dir q = s.dir q := by
  simp [link, h]

@[simp] theorem dir_unlink_self : (s.unlink p).dir p = none := by
  simp [unlink]

theorem dir_unlink_of_ne (h : q ≠ p) : (s.unlink p).dir q = s.dir q := by
  simp [unlink, h]

/-- Removing a name gives no other name a file. -/
theorem dir_of_dir_unlink (h : (s.unlink p).dir q = some f) : s.dir q = some f := by
  by_cases hq : q = p
  · simp [hq] at h
  · simpa [dir_unlink_of_ne hq] using h

@[simp] theorem content_write_self : (s.write f b).content f = s.content f ++ [b] := by
  simp [write]

theorem content_write_of_ne (h : g ≠ f) : (s.write f b).content g = s.content g := by
  simp [write, h]

@[simp] theorem content_truncate_self : (s.truncate f).content f = [] := by
  simp [truncate]

theorem content_truncate_of_ne (h : g ≠ f) : (s.truncate f).content g = s.content g := by
  simp [truncate, h]

@[simp] theorem content_link_next : (s.link p).content s.next = [] := by
  simp [link]

theorem content_link_of_lt (h : g < s.next) : (s.link p).content g = s.content g := by
  simp [link, Nat.ne_of_lt h]

end Frame

section WriteAll

variable {s} (f : Nat) (bytes : List UInt8)

@[simp] theorem dir_writeAll : (s.writeAll f bytes).dir = s.dir := by
  induction bytes generalizing s with
  | nil =>
      rfl
  | cons b bytes ih =>
      simpa [writeAll] using ih (s := s.write f b)

@[simp] theorem content_writeAll_self :
    (s.writeAll f bytes).content f = s.content f ++ bytes := by
  induction bytes generalizing s with
  | nil =>
      simp [writeAll]
  | cons b bytes ih =>
      simpa [writeAll] using ih (s := s.write f b)

@[simp] theorem next_writeAll : (s.writeAll f bytes).next = s.next := by
  induction bytes generalizing s with
  | nil =>
      rfl
  | cons b bytes ih =>
      simpa [writeAll] using ih (s := s.write f b)

theorem content_writeAll_of_ne {g : Nat} (h : g ≠ f) :
    (s.writeAll f bytes).content g = s.content g := by
  induction bytes generalizing s with
  | nil =>
      rfl
  | cons b bytes ih =>
      simpa [writeAll, content_write_of_ne h] using ih (s := s.write f b)

end WriteAll

/-! ## Names and their files -/

section Files

variable {s} {t : FileStore P} {p q : P}

theorem file_eq_none : s.file p = none ↔ s.dir p = none := by
  simp [file]

theorem file_of_dir {f : Nat} (h : s.dir p = some f) : s.file p = some (s.content f) := by
  simp [file, h]

theorem size_of_file {bytes : List UInt8} (h : s.file p = some bytes) :
    s.size p = bytes.length := by
  simp [size, h]

theorem size_of_absent (h : s.file p = none) : s.size p = 0 := by
  simp [size, h]

theorem size_congr (h : t.file p = s.file p) : t.size p = s.size p := by
  simp [size, h]

@[simp] theorem file_setClock {now : Nat} : (s.setClock now).file = s.file :=
  rfl

@[simp] theorem file_unlink_self : (s.unlink p).file p = none := by
  simp [file]

theorem file_unlink_of_ne (h : q ≠ p) : (s.unlink p).file q = s.file q := by
  simp [file, dir_unlink_of_ne h]

@[simp] theorem file_link_self : (s.link p).file p = some [] := by
  simp [file]

theorem file_link_of_ne (h : q ≠ p) : (s.link p).file q = s.file q := by
  cases hq : s.dir q with
  | none =>
      simp [file, dir_link_of_ne h, hq]
  | some f =>
      simp [file, dir_link_of_ne h, hq, content_link_of_lt (s.dir_lt q f hq)]

theorem file_writeAll_self {f : Nat} (bytes : List UInt8) (h : s.dir p = some f) :
    (s.writeAll f bytes).file p = some (s.content f ++ bytes) := by
  simp [file, h]

/-- Two names never lead to one file, so a write is seen under one name only. -/
theorem file_writeAll_of_ne {f : Nat} (bytes : List UInt8) (h : s.dir p = some f) (hq : q ≠ p) :
    (s.writeAll f bytes).file q = s.file q := by
  cases hg : s.dir q with
  | none =>
      simp [file, hg]
  | some g =>
      have hne : g ≠ f := fun heq => hq (s.dir_inj q p f (heq ▸ hg) h)
      simp [file, hg, content_writeAll_of_ne f bytes hne]

@[simp] theorem file_truncate_self {f : Nat} (h : s.dir p = some f) :
    (s.truncate f).file p = some [] := by
  simp [file, h]

theorem file_truncate_of_ne {f : Nat} (h : s.dir p = some f) (hq : q ≠ p) :
    (s.truncate f).file q = s.file q := by
  cases hg : s.dir q with
  | none =>
      simp [file, hg]
  | some g =>
      have hne : g ≠ f := fun heq => hq (s.dir_inj q p f (heq ▸ hg) h)
      simp [file, hg, content_truncate_of_ne hne]

theorem dir_create_self : (s.create p).2.dir p = some (s.create p).1 := by
  cases h : s.dir p with
  | none =>
      simp [create, h]
  | some f =>
      simp [create, h]

theorem file_create_of_ne (hq : q ≠ p) : (s.create p).2.file q = s.file q := by
  cases h : s.dir p with
  | none =>
      simpa [create, h] using file_link_of_ne hq
  | some f =>
      simpa [create, h] using file_truncate_of_ne h hq

theorem content_create_self : (s.create p).2.content (s.create p).1 = [] := by
  cases h : s.dir p with
  | none =>
      simp [create, h]
  | some f =>
      simp [create, h]

@[simp] theorem file_save_self (bytes : List UInt8) : (s.save p bytes).file p = some bytes := by
  simpa [save, content_create_self] using file_writeAll_self bytes (dir_create_self (s := s))

theorem file_save_of_ne (bytes : List UInt8) (hq : q ≠ p) :
    (s.save p bytes).file q = s.file q := by
  have hwrite := file_writeAll_of_ne bytes (dir_create_self (s := s) (p := p)) hq
  simpa [save, file_create_of_ne hq] using hwrite

/-- A file of a new name leaves the bytes of all files that were there, under a name or not. -/
theorem content_save_of_absent (bytes : List UInt8) (h : s.dir p = none) {f : Nat}
    (hf : f < s.next) : (s.save p bytes).content f = s.content f := by
  -- the name is free, so a new file is written, with a number no old file has
  simp only [save, create, h]
  calc
    ((s.link p).writeAll s.next bytes).content f = (s.link p).content f :=
          content_writeAll_of_ne _ _ (Nat.ne_of_lt hf)
    _ = s.content f := content_link_of_lt hf

theorem next_save_of_absent (bytes : List UInt8) (h : s.dir p = none) :
    (s.save p bytes).next = s.next + 1 := by
  simp [save, create, h]

/-- Removing a name that is not there changes nothing. -/
theorem unlink_of_absent (h : s.dir p = none) : s.unlink p = s := by
  have hdir : Function.update s.dir p none = s.dir := by
    rw [← h, Function.update_eq_self]
  have hnames : s.names.erase p = s.names := by
    refine Finset.erase_eq_of_notMem ?_
    simp [s.mem_names p, h]
  cases s
  simp_all [unlink]

theorem mem_names_iff_file : p ∈ s.names ↔ (s.file p).isSome = true := by
  simp [file, s.mem_names p]

/-! ## Times -/

@[simp] theorem clock_writeAll (f : Nat) (bytes : List UInt8) :
    (s.writeAll f bytes).clock = s.clock := by
  induction bytes generalizing s with
  | nil =>
      rfl
  | cons b bytes ih =>
      exact ih (s := s.write f b)

@[simp] theorem clock_create : (s.create p).2.clock = s.clock := by
  cases h : s.dir p with
  | none =>
      simp [create, h, link]
  | some f =>
      simp [create, h, truncate]

theorem modified_writeAll_self {f : Nat} (bytes : List UInt8) (h : s.modified f = s.clock) :
    (s.writeAll f bytes).modified f = s.clock := by
  induction bytes generalizing s with
  | nil =>
      exact h
  | cons b bytes ih =>
      exact ih (s := s.write f b) (by simp [write])

theorem modified_writeAll_of_ne {f g : Nat} (bytes : List UInt8) (h : g ≠ f) :
    (s.writeAll f bytes).modified g = s.modified g := by
  induction bytes generalizing s with
  | nil =>
      rfl
  | cons b bytes ih =>
      exact (ih (s := s.write f b)).trans (by simp [write, h])

theorem modified_create_self : (s.create p).2.modified (s.create p).1 = s.clock := by
  cases h : s.dir p with
  | none =>
      simp [create, h, link]
  | some f =>
      simp [create, h, truncate]

theorem modifiedAt_of_dir {f : Nat} (h : s.dir p = some f) : s.modifiedAt p = s.modified f := by
  simp [modifiedAt, h]

theorem modifiedAt_of_absent (h : s.dir p = none) : s.modifiedAt p = 0 := by
  simp [modifiedAt, h]

theorem dir_create_of_ne (hq : q ≠ p) : (s.create p).2.dir q = s.dir q := by
  cases h : s.dir p with
  | none =>
      simpa [create, h] using dir_link_of_ne hq
  | some f =>
      simp [create, h]

theorem modified_create_of_ne {g : Nat} (hq : q ≠ p) (hg : s.dir q = some g) :
    (s.create p).2.modified g = s.modified g := by
  cases h : s.dir p with
  | none =>
      have hne : g ≠ s.next := Nat.ne_of_lt (s.dir_lt q g hg)
      simp [create, h, link, hne]
  | some f =>
      have hne : g ≠ f := fun heq => hq (s.dir_inj q p f (heq ▸ hg) h)
      simp [create, h, truncate, hne]

/-- A file is as old as its last write. -/
theorem modifiedAt_save_self (bytes : List UInt8) : (s.save p bytes).modifiedAt p = s.clock := by
  have hdir : (s.save p bytes).dir p = some (s.create p).1 := by
    rw [save, dir_writeAll, dir_create_self]
  calc
    (s.save p bytes).modifiedAt p = (s.save p bytes).modified (s.create p).1 :=
          modifiedAt_of_dir hdir
    _ = (s.create p).2.clock :=
          modified_writeAll_self bytes (modified_create_self.trans clock_create.symm)
    _ = s.clock := clock_create

theorem modifiedAt_save_of_ne (bytes : List UInt8) (hq : q ≠ p) :
    (s.save p bytes).modifiedAt q = s.modifiedAt q := by
  have hdir : (s.save p bytes).dir q = s.dir q := by
    rw [save, dir_writeAll, dir_create_of_ne hq]
  cases hg : s.dir q with
  | none =>
      rw [modifiedAt_of_absent (hdir.trans hg), modifiedAt_of_absent hg]
  | some g =>
      have hcreate : (s.create p).2.dir q = some g := (dir_create_of_ne hq).trans hg
      -- the file that is written belongs to `p` alone
      have hne : g ≠ (s.create p).1 :=
        fun heq => hq ((s.create p).2.dir_inj q p _ (heq ▸ hcreate) dir_create_self)
      calc
        (s.save p bytes).modifiedAt q = (s.save p bytes).modified g :=
              modifiedAt_of_dir (hdir.trans hg)
        _ = (s.create p).2.modified g := modified_writeAll_of_ne bytes hne
        _ = s.modified g := modified_create_of_ne hq hg
        _ = s.modifiedAt q := (modifiedAt_of_dir hg).symm

theorem modifiedAt_unlink_of_ne (hq : q ≠ p) : (s.unlink p).modifiedAt q = s.modifiedAt q := by
  rw [modifiedAt, dir_unlink_of_ne hq]
  rfl

/-! ## Total length -/

variable (counted : P → Bool)

/-- The total may be taken over any set that has all names in it. -/
theorem total_eq_sum {names : Finset P} (h : s.names ⊆ names) :
    s.total counted = ∑ p ∈ names, if counted p then s.size p else 0 := by
  refine Finset.sum_subset h ?_
  intro p _ hp
  have hnone : s.file p = none := by
    simpa [mem_names_iff_file] using hp
  simp [size_of_absent hnone]

/-- Two stores that differ at one name only differ in their totals by the file of that name. -/
theorem total_of_agree (h : ∀ q, q ≠ p → t.file q = s.file q) :
    t.total counted + (if counted p then s.size p else 0) =
      s.total counted + (if counted p then t.size p else 0) := by
  let names := insert p (s.names ∪ t.names)
  have hs : s.names ⊆ names := by
    intro q hq
    simp [names, hq]
  have ht : t.names ⊆ names := by
    intro q hq
    simp [names, hq]
  have hp : p ∈ names := by
    simp [names]
  -- over the names of both stores the sums differ in the term of `p` only
  have hrest : ∑ q ∈ names.erase p, (if counted q then t.size q else 0) =
      ∑ q ∈ names.erase p, if counted q then s.size q else 0 := by
    refine Finset.sum_congr rfl ?_
    intro q hq
    rw [size_congr (h q (Finset.ne_of_mem_erase hq))]
  rw [total_eq_sum counted hs, total_eq_sum counted ht, ← Finset.sum_erase_add _ _ hp,
    ← Finset.sum_erase_add _ _ hp, hrest]
  omega

theorem total_eq_zero (h : ∀ p, counted p = true → s.size p = 0) : s.total counted = 0 := by
  refine Finset.sum_eq_zero ?_
  intro p _
  by_cases hp : counted p = true
  · simp [hp, h p hp]
  · simp [hp]

end Files

end FileStore

/-! ## The operations of a program -/

structure IoError where
  notFound : Bool
  text : Str
  deriving DecidableEq, Repr

structure FileMetadata where
  len : Nat
  modified : Nat
  deriving DecidableEq, Repr

/-- Opened files are named by their number in the store. -/
inductive FileOp (P : Type)
  | createDirAll (p : P)
  | create (p : P)
  | write (f : Nat) (b : UInt8)
  | flush (f : Nat)
  | openFile (p : P)
  | readToEnd (f : Nat)
  | metadata (p : P)
  | removeFile (p : P)
  deriving DecidableEq, Repr

namespace FileOp

variable {P : Type}

def Val : FileOp P → Type
  | createDirAll _ => Unit
  | create _ => Nat
  | write _ _ => Unit
  | flush _ => Unit
  | openFile _ => Nat
  | readToEnd _ => List UInt8
  | metadata _ => FileMetadata
  | removeFile _ => Unit

abbrev Resp (op : FileOp P) : Type :=
  Except IoError op.Val

def notFoundError : IoError :=
  { notFound := true, text := "No such file or directory (os error 2)".toList }

variable [DecidableEq P]

/-- What an operation does when the system performs it.  Directories hold nothing that is read
later and are not recorded. -/
def apply : (op : FileOp P) → FileStore P → Resp op × FileStore P
  | createDirAll _, s => (.ok (), s)
  | create p, s => (.ok (s.create p).1, (s.create p).2)
  | write f b, s => (.ok (), s.write f b)
  | flush _, s => (.ok (), s)
  | openFile p, s =>
      match s.dir p with
      | some f => (.ok f, s)
      | none => (.error notFoundError, s)
  | readToEnd f, s => (.ok (s.content f), s)
  | metadata p, s =>
      match s.dir p with
      | some f => (.ok { len := (s.content f).length, modified := s.modified f }, s)
      | none => (.error notFoundError, s)
  | removeFile p, s =>
      match s.dir p with
      | some _ => (.ok (), s.unlink p)
      | none => (.error notFoundError, s)

/-! ## What an operation does -/

section Effects

variable {op : FileOp P} {s : FileStore P} {p : P} {f : Nat}

/-- An operation leaves the store, or does one of four things to it. -/
theorem apply_cases (op : FileOp P) (s : FileStore P) :
    (apply op s).2 = s ∨
      (∃ p, op = .create p ∧ s.dir p = none ∧ (apply op s).2 = s.link p) ∨
      (∃ p f, op = .create p ∧ s.dir p = some f ∧ (apply op s).2 = s.truncate f) ∨
      (∃ f b, op = .write f b ∧ (apply op s).2 = s.write f b) ∨
      ∃ p, op = .removeFile p ∧ (apply op s).2 = s.unlink p := by
  cases op with
  | create p =>
      cases hp : s.dir p with
      | none =>
          exact .inr (.inl ⟨p, rfl, hp, by simp [apply, FileStore.create, hp]⟩)
      | some f =>
          exact .inr (.inr (.inl ⟨p, f, rfl, hp, by simp [apply, FileStore.create, hp]⟩))
  | write f b =>
      exact .inr (.inr (.inr (.inl ⟨f, b, rfl, rfl⟩)))
  | removeFile p =>
      cases hp : s.dir p with
      | none =>
          exact .inl (by simp [apply, hp])
      | some f =>
          exact .inr (.inr (.inr (.inr ⟨p, rfl, by simp [apply, hp]⟩)))
  | openFile p =>
      cases hp : s.dir p with
      | none =>
          exact .inl (by simp [apply, hp])
      | some f =>
          exact .inl (by simp [apply, hp])
  | metadata p =>
      cases hp : s.dir p with
      | none =>
          exact .inl (by simp [apply, hp])
      | some f =>
          exact .inl (by simp [apply, hp])
  | _ =>
      exact .inl rfl

theorem le_next (op : FileOp P) (s : FileStore P) : s.next ≤ (apply op s).2.next := by
  rcases apply_cases op s with h | ⟨p, _, _, h⟩ | ⟨p, f, _, _, h⟩ | ⟨f, b, _, h⟩ | ⟨p, _, h⟩
  · rw [h]
  · simp [h]
  · simp [h]
  · simp [h]
  · simp [h]

/-- A name leads to a file because it did before, or because it has just been created. -/
theorem dir_of_dir_apply (h : (apply op s).2.dir p = some f) :
    s.dir p = some f ∨ (op = .create p ∧ f = s.next) := by
  rcases apply_cases op s with hs | ⟨q, rfl, _, hs⟩ | ⟨q, g, _, _, hs⟩ | ⟨g, b, _, hs⟩ | ⟨q, _, hs⟩
  · exact .inl (hs ▸ h)
  · rw [hs] at h
    -- linking gives one name a file; all others keep theirs
    by_cases hpq : p = q
    · subst hpq
      have hnext : s.next = f := by
        simpa using h
      exact .inr ⟨rfl, hnext.symm⟩
    · exact .inl (by rwa [FileStore.dir_link_of_ne hpq] at h)
  · exact .inl (by rwa [hs] at h)
  · exact .inl (by rwa [hs] at h)
  · rw [hs] at h
    exact .inl (FileStore.dir_of_dir_unlink h)

/-- A name goes on leading to its file until it is removed. -/
theorem dir_apply (h : s.dir p = some f) (hop : op ≠ .removeFile p) :
    (apply op s).2.dir p = some f := by
  rcases apply_cases op s with hs | ⟨q, _, hq, hs⟩ | ⟨q, g, _, _, hs⟩ | ⟨g, b, _, hs⟩ | ⟨q, rfl, hs⟩
  · rwa [hs]
  · have hpq : p ≠ q := by
      rintro rfl
      rw [h] at hq
      cases hq
    rwa [hs, FileStore.dir_link_of_ne hpq]
  · rwa [hs]
  · rwa [hs]
  · have hpq : p ≠ q := by
      rintro rfl
      exact hop rfl
    rwa [hs, FileStore.dir_unlink_of_ne hpq]

/-- The bytes of a file change only when it is written to or created anew. -/
theorem content_apply (hf : f < s.next) (hwrite : ∀ b, op ≠ .write f b)
    (hcreate : ∀ p, op = .create p → s.dir p ≠ some f) :
    (apply op s).2.content f = s.content f := by
  rcases apply_cases op s with
    hs | ⟨q, _, _, hs⟩ | ⟨q, g, hq, hg, hs⟩ | ⟨g, b, rfl, hs⟩ | ⟨q, _, hs⟩
  · rw [hs]
  · rw [hs, FileStore.content_link_of_lt hf]
  -- `create` empties the file of its name, which is not this one
  · have hfg : f ≠ g := by
      rintro rfl
      exact hcreate q hq hg
    rw [hs, FileStore.content_truncate_of_ne hfg]
  · have hfg : f ≠ g := by
      rintro rfl
      exact hwrite b rfl
    rw [hs, FileStore.content_write_of_ne hfg]
  · rw [hs, FileStore.content_unlink]

end Effects

/-- The operations that look at files and change none. -/
def Looks : FileOp P → Prop
  | openFile _ => True
  | readToEnd _ => True
  | metadata _ => True
  | _ => False

theorem Looks.store {op : FileOp P} (h : op.Looks) (s : FileStore P) : (apply op s).2 = s := by
  rcases apply_cases op s with
    hs | ⟨p, rfl, _⟩ | ⟨p, f, rfl, _⟩ | ⟨f, b, rfl, _⟩ | ⟨p, rfl, _⟩
  · exact hs
  · exact h.elim
  · exact h.elim
  · exact h.elim
  · exact h.elim

/-- The operations that bring no file about and write to none. -/
def Shrinks : FileOp P → Prop
  | create _ => False
  | write _ _ => False
  | _ => True

/-- Every file that is left was there. -/
theorem Shrinks.file {op : FileOp P} (h : op.Shrinks) {s : FileStore P} {p : P}
    {bytes : List UInt8} (hp : (apply op s).2.file p = some bytes) : s.file p = some bytes := by
  have hcreate : ∀ q, op ≠ .create q := by
    rintro q rfl
    exact h
  have hwrite : ∀ f b, op ≠ .write f b := by
    rintro f b rfl
    exact h
  rcases Option.map_eq_some_iff.1 hp with ⟨f, hf, rfl⟩
  have hdir : s.dir p = some f := by
    rcases dir_of_dir_apply hf with hdir | ⟨rfl, _⟩
    · exact hdir
    · exact absurd rfl (hcreate p)
  rw [FileStore.file_of_dir hdir, content_apply (s.dir_lt p f hdir) (hwrite f)
    (fun q hq => absurd hq (hcreate q))]

/-- The system refuses an operation, and nothing changes. -/
def Refused (op : FileOp P) (s : FileStore P) (r : Resp op) (t : FileStore P) : Prop :=
  (∃ e, r = .error e) ∧ t = s

/-- The length in an answer about a file, and 0 when there is none. -/
def lengthOf : Except IoError FileMetadata → Nat
  | .ok m => m.len
  | .error _ => 0

/-- Answers that are the same to those who look at lengths only, and remove files quietly. -/
def Alike : (op : FileOp P) → op.Resp → op.Resp → Prop
  | .metadata _, r, r' => lengthOf r = lengthOf r'
  | .removeFile _, _, _ => True
  | _, r, r' => r = r'

omit [DecidableEq P] in
theorem Alike.refl (op : FileOp P) (r : op.Resp) : Alike op r r := by
  cases op with
  | removeFile p =>
      trivial
  | _ =>
      exact rfl

theorem apply_openFile {p : P} {s t : FileStore P} {r : Except IoError Nat}
    (h : apply (.openFile p) s = (r, t)) :
    t = s ∧ ((∃ f, s.dir p = some f ∧ r = .ok f) ∨
      (s.dir p = none ∧ r = .error notFoundError)) := by
  cases hp : s.dir p with
  | none =>
      simp only [apply, hp] at h
      cases h
      exact ⟨rfl, .inr ⟨rfl, rfl⟩⟩
  | some f =>
      simp only [apply, hp] at h
      cases h
      exact ⟨rfl, .inl ⟨f, rfl, rfl⟩⟩

theorem lengthOf_apply_metadata (p : P) (s : FileStore P) :
    lengthOf (apply (.metadata p) s).1 = s.size p := by
  cases h : s.dir p with
  | none =>
      simp [apply, h, lengthOf, FileStore.size_of_absent (FileStore.file_eq_none.2 h)]
  | some f =>
      simp [apply, h, lengthOf, FileStore.size_of_file (FileStore.file_of_dir h)]

end FileOp

/-- Programs that work on files. -/
abbrev FileProg (P : Type) (α : Type) : Type :=
  Prog (FileOp.Resp (P := P)) α

namespace FileProg

variable {P : Type}

/-- `write_all`: byte by byte, up to the first error. -/
def writeAll (f : Nat) : List UInt8 → FileProg P (Except IoError Unit)
  | [] => .ret (.ok ())
  | b :: bytes =>
      .call (.write f b) fun r =>
        match r with
        | .ok _ => writeAll f bytes
        | .error e => .ret (.error e)

/-- The length of a file, and 0 when it cannot be told. -/
def fileSize (p : P) : FileProg P Nat :=
  .call (.metadata p) fun r =>
    match r with
    | .ok m => .ret m.len
    | .error _ => .ret 0

/-- Create a file, write all of it and flush it, up to the first error. -/
def writeFile (p : P) (bytes : List UInt8) : FileProg P (Except IoError Unit) :=
  .call (.create p) fun r =>
    match r with
    | .error e => .ret (.error e)
    | .ok f =>
        writeAll f bytes >>= fun r =>
          match r with
          | .error e => .ret (.error e)
          | .ok _ =>
              .call (.flush f) fun r =>
                match r with
                | .error e => .ret (.error e)
                | .ok _ => .ret (.ok ())

/-- Remove a file, whatever comes of it. -/
def removeQuietly (p : P) : FileProg P Unit :=
  .call (.removeFile p) fun _ => .ret ()

section Calls

variable {kind : FileOp P → Prop} (hwrite : ∀ f b, kind (.write f b))

include hwrite

theorem writeAll_onlyCalls (f : Nat) (bytes : List UInt8) :
    (writeAll f bytes).OnlyCalls kind := by
  induction bytes with
  | nil =>
      trivial
  | cons b bytes ih =>
      refine ⟨hwrite f b, ?_⟩
      intro r
      cases r with
      | error e =>
          trivial
      | ok _ =>
          exact ih

theorem writeFile_onlyCalls {p : P} (hcreate : kind (.create p)) (hflush : ∀ f, kind (.flush f))
    (bytes : List UInt8) : (writeFile p bytes).OnlyCalls kind := by
  refine ⟨hcreate, ?_⟩
  intro r
  cases r with
  | error e =>
      trivial
  | ok f =>
      refine (writeAll_onlyCalls hwrite f bytes).bind ?_
      intro r
      cases r with
      | error e =>
          trivial
      | ok _ =>
          refine ⟨hflush f, ?_⟩
          intro r
          cases r <;> trivial

end Calls

theorem fileSize_respects (p : P) : (fileSize p).Respects FileOp.Alike := by
  refine ⟨?_, ?_⟩
  · intro r r' halike
    have hlength : FileOp.lengthOf r = FileOp.lengthOf r' := halike
    cases r with
    | error e =>
        cases r' with
        | error e' =>
            rfl
        | ok m' =>
            exact congrArg Prog.ret hlength
    | ok m =>
        cases r' with
        | error e' =>
            exact congrArg Prog.ret hlength
        | ok m' =>
            exact congrArg Prog.ret hlength
  · intro r
    cases r <;> trivial

theorem removeQuietly_respects (p : P) : (removeQuietly p).Respects FileOp.Alike :=
  ⟨fun _ _ _ => rfl, fun _ => trivial⟩

variable [DecidableEq P]

@[simp] theorem exec_writeAll (f : Nat) (bytes : List UInt8) (s : FileStore P) :
    (writeAll f bytes).exec FileOp.apply s = (.ok (), s.writeAll f bytes) := by
  induction bytes generalizing s with
  | nil =>
      rfl
  | cons b bytes ih =>
      simpa [writeAll, FileOp.apply, FileStore.writeAll] using ih (s.write f b)

@[simp] theorem exec_fileSize (p : P) (s : FileStore P) :
    (fileSize p).exec FileOp.apply s = (s.size p, s) := by
  cases h : s.dir p with
  | none =>
      simp [fileSize, FileOp.apply, h, FileStore.size, FileStore.file]
  | some f =>
      simp [fileSize, FileOp.apply, h, FileStore.size, FileStore.file]

@[simp] theorem exec_removeQuietly (p : P) (s : FileStore P) :
    (removeQuietly p).exec FileOp.apply s = ((), s.unlink p) := by
  cases h : s.dir p with
  | none =>
      simp [removeQuietly, FileOp.apply, h, FileStore.unlink_of_absent h]
  | some f =>
      simp [removeQuietly, FileOp.apply, h]

@[simp] theorem exec_writeFile (p : P) (bytes : List UInt8) (s : FileStore P) :
    (writeFile p bytes).exec FileOp.apply s = (.ok (), s.save p bytes) := by
  simp [writeFile, FileOp.apply, FileStore.save]

/-- The rule of writing: `A written` holds when so many bytes are written, and `B` when a byte
is refused. -/
theorem holds_writeAll {perf : (op : FileOp P) → FileStore P → op.Resp → FileStore P → Prop}
    {I : FileOp P → FileStore P → Prop} {f : Nat} {A : List UInt8 → FileStore P → Prop}
    {B : FileStore P → Prop} (hI : ∀ written b s, A written s → I (.write f b) s)
    (hstep : ∀ written b s r t, A written s → perf (.write f b) s r t →
      ((∃ u, r = .ok u) ∧ A (written ++ [b]) t) ∨ ((∃ e, r = .error e) ∧ B t))
    {written bytes : List UInt8} {s : FileStore P} (hs : A written s) :
    Prog.Holds perf I
      (fun r t => (r = .ok () ∧ A (written ++ bytes) t) ∨ ((∃ e, r = .error e) ∧ B t))
      (writeAll f bytes) s := by
  induction bytes generalizing written s with
  | nil =>
      exact .inl ⟨rfl, by simpa using hs⟩
  | cons b bytes ih =>
      refine .call (hI written b s hs) ?_
      intro r t hr
      rcases hstep written b s r t hs hr with ⟨⟨u, rfl⟩, hA⟩ | ⟨⟨e, rfl⟩, hB⟩
      · simpa using ih hA
      · exact .inr ⟨⟨e, rfl⟩, hB⟩

/-- Wherever the writing of a file is cut, all other files are as they were. -/
theorem holds_writeFile (p : P) (bytes : List UInt8) (s : FileStore P) :
    Prog.Holds (Prog.Does FileOp.apply) (fun _ t => ∀ q, q ≠ p → t.file q = s.file q)
      (fun r t => r = .ok () ∧ t = s.save p bytes) (writeFile p bytes) s := by
  have hcuts : Prog.Holds (Prog.Does FileOp.apply) (fun _ t => ∀ q, q ≠ p → t.file q = s.file q)
      (fun _ _ => True) (writeFile p bytes) s := by
    refine .call (fun _ _ => rfl) ?_
    rintro r t hcreate
    cases hcreate
    -- the bytes go to the file that was created
    let Written : List UInt8 → FileStore P → Prop := fun written t =>
      t.dir p = some (s.create p).1 ∧ t.content (s.create p).1 = written ∧
        ∀ q, q ≠ p → t.file q = s.file q
    have hcreated : Written [] (s.create p).2 :=
      ⟨FileStore.dir_create_self, FileStore.content_create_self,
        fun _ hq => FileStore.file_create_of_ne hq⟩
    refine Prog.Holds.seq (holds_writeAll (A := Written) (B := fun _ => False) ?_ ?_ hcreated) ?_
    · intro written b t ht
      exact ht.2.2
    · rintro written b r t u ⟨hdir, rfl, hothers⟩ hwrite
      cases hwrite
      refine Or.inl ⟨⟨(), rfl⟩, hdir, by simp, ?_⟩
      intro q hq
      exact (FileStore.file_writeAll_of_ne [b] hdir hq).trans (hothers q hq)
    · rintro r t (⟨rfl, ht⟩ | ⟨-, hfalse⟩)
      · refine .call ht.2.2 ?_
        rintro r u hflush
        cases hflush
        trivial
      · exact hfalse.elim
  refine hcuts.and_exec.imp ?_
  rintro r t ⟨-, hexec⟩
  rw [exec_writeFile] at hexec
  cases hexec
  exact ⟨rfl, rfl⟩

end FileProg

end Lib
end Squiddish
