import Mathlib.Algebra.GroupWithZero.Nat
import Mathlib.Data.List.Nodup
import Mathlib.Data.List.Perm.Basic

/-!
# Listing — the files below a directory, and the walk through them

* `Listing N` : what a directory lists, over names `N`;
* `paths`     : all files below it;
* `walk`      : the files in the order in which a walk with a stack of directories meets them.

The walk meets every file once.
-/

namespace Squiddish
namespace Lib

/-- The entries of a directory in their order: files, and directories with their own entries. -/
inductive Listing (N : Type)
  | nil
  | file (name : N) (rest : Listing N)
  | dir (name : N) (entries rest : Listing N)
  deriving DecidableEq, Repr

namespace Listing

open scoped List

variable {N : Type}

/-! ## What is listed -/

/-- The number of entries, at any depth. -/
def size : Listing N → Nat
  | nil => 0
  | file _ rest => rest.size + 1
  | dir _ entries rest => entries.size + 1 + rest.size

def names : Listing N → List N
  | nil => []
  | file name rest => name :: rest.names
  | dir name _ rest => name :: rest.names

/-- No directory lists a name twice. -/
def Distinct : Listing N → Prop
  | nil => True
  | file name rest => name ∉ rest.names ∧ rest.Distinct
  | dir name entries rest => name ∉ rest.names ∧ entries.Distinct ∧ rest.Distinct

/-- The files below the directory `here`. -/
def paths : Listing N → List N → List (List N)
  | nil, _ => []
  | file name rest, here => (here ++ [name]) :: rest.paths here
  | dir name entries rest, here => entries.paths (here ++ [name]) ++ rest.paths here

/-- The files that the directory itself lists. -/
def files : Listing N → List N → List (List N)
  | nil, _ => []
  | file name rest, here => (here ++ [name]) :: rest.files here
  | dir _ _ rest, here => rest.files here

/-- The directories that it lists. -/
def subdirs : Listing N → List N → List (List N × Listing N)
  | nil, _ => []
  | file _ rest, here => rest.subdirs here
  | dir name entries rest, here => (here ++ [name], entries) :: rest.subdirs here

/-- The directories on a stack, each counted with all it lists. -/
def stackSize (stack : List (List N × Listing N)) : Nat :=
  (stack.map (fun d => d.2.size + 1)).sum

theorem stackSize_subdirs_le (l : Listing N) (here : List N) :
    stackSize (l.subdirs here) ≤ l.size := by
  induction l with
  | nil =>
      exact Nat.le_refl _
  | file name rest ih =>
      exact Nat.le_trans ih (Nat.le_succ _)
  | dir name entries rest _ ih =>
      have hsum : stackSize ((dir name entries rest).subdirs here) =
          entries.size + 1 + stackSize (rest.subdirs here) := by
        simp [stackSize, subdirs]
      rw [hsum]
      exact Nat.add_le_add_left ih _

theorem stackSize_push_lt (here : List N) (l : Listing N) (stack : List (List N × Listing N)) :
    stackSize ((l.subdirs here).reverse ++ stack) < stackSize ((here, l) :: stack) := by
  have hpushed : stackSize ((l.subdirs here).reverse ++ stack) =
      stackSize (l.subdirs here) + stackSize stack := by
    simp [stackSize, List.sum_reverse]
  have hpopped : stackSize ((here, l) :: stack) = l.size + 1 + stackSize stack := by
    simp [stackSize]
  have hle := stackSize_subdirs_le l here
  rw [hpushed, hpopped]
  exact Nat.add_lt_add_right (Nat.lt_succ_of_le hle) _

/-! ## The walk -/

/-- A directory is taken off the stack, its files are visited and its directories pushed. -/
def walk : List (List N × Listing N) → List (List N)
  | [] => []
  | (here, entries) :: stack =>
      entries.files here ++ walk ((entries.subdirs here).reverse ++ stack)
termination_by stack => stackSize stack
decreasing_by exact stackSize_push_lt here entries stack

theorem walk_nil : walk ([] : List (List N × Listing N)) = [] := by
  rw [walk]

theorem walk_cons (here : List N) (entries : Listing N) (stack : List (List N × Listing N)) :
    walk ((here, entries) :: stack) =
      entries.files here ++ walk ((entries.subdirs here).reverse ++ stack) := by
  rw [walk]

theorem paths_perm (l : Listing N) (here : List N) :
    (l.paths here).Perm (l.files here ++ (l.subdirs here).flatMap (fun d => d.2.paths d.1)) := by
  induction l with
  | nil =>
      exact .nil
  | file name rest ih =>
      exact ih.cons _
  | dir name entries rest _ ih =>
      have hrest := ih.append_left (entries.paths (here ++ [name]))
      -- the files of the directory itself come before those of the first directory it lists
      calc
        (dir name entries rest).paths here ~
            entries.paths (here ++ [name]) ++ (rest.files here ++
              (rest.subdirs here).flatMap (fun d => d.2.paths d.1)) := hrest
        _ ~ rest.files here ++ (entries.paths (here ++ [name]) ++
              (rest.subdirs here).flatMap (fun d => d.2.paths d.1)) :=
            List.perm_append_comm_assoc _ _ _

/-- The walk visits each file below the directories of its stack once. -/
theorem walk_perm (stack : List (List N × Listing N)) :
    (walk stack).Perm (stack.flatMap (fun d => d.2.paths d.1)) := by
  induction stack using walk.induct with
  | case1 =>
      rw [walk_nil]
      exact .nil
  | case2 here entries stack ih =>
      rw [walk_cons]
      have hrest : (walk ((entries.subdirs here).reverse ++ stack)).Perm
          ((entries.subdirs here).flatMap (fun d => d.2.paths d.1) ++
            stack.flatMap (fun d => d.2.paths d.1)) := by
        refine ih.trans ?_
        rw [List.flatMap_append]
        exact ((List.reverse_perm _).flatMap_right _).append_right _
      calc
        entries.files here ++ walk ((entries.subdirs here).reverse ++ stack) ~
            entries.files here ++ ((entries.subdirs here).flatMap (fun d => d.2.paths d.1) ++
              stack.flatMap (fun d => d.2.paths d.1)) := hrest.append_left _
        _ = (entries.files here ++ (entries.subdirs here).flatMap (fun d => d.2.paths d.1)) ++
              stack.flatMap (fun d => d.2.paths d.1) := (List.append_assoc _ _ _).symm
        _ ~ entries.paths here ++ stack.flatMap (fun d => d.2.paths d.1) :=
            (paths_perm entries here).symm.append_right _

/-! ## No file twice -/

theorem exists_of_mem_paths {l : Listing N} {here p : List N} (h : p ∈ l.paths here) :
    ∃ name ∈ l.names, ∃ t, p = here ++ name :: t := by
  induction l generalizing here with
  | nil =>
      cases h
  | file name rest ih =>
      rcases List.mem_cons.1 h with rfl | hrest
      · exact ⟨name, List.mem_cons_self, [], rfl⟩
      · rcases ih hrest with ⟨other, hother, t, rfl⟩
        exact ⟨other, List.mem_cons_of_mem _ hother, t, rfl⟩
  | dir name entries rest ihEntries ih =>
      rcases List.mem_append.1 h with hentries | hrest
      · rcases ihEntries hentries with ⟨other, -, t, rfl⟩
        exact ⟨name, List.mem_cons_self, other :: t, by simp⟩
      · rcases ih hrest with ⟨other, hother, t, rfl⟩
        exact ⟨other, List.mem_cons_of_mem _ hother, t, rfl⟩

/-- A path through the name `name` is not one of a directory that lists no such name. -/
theorem notMem_paths {l : Listing N} {here t : List N} {name : N} (h : name ∉ l.names) :
    here ++ name :: t ∉ l.paths here := by
  intro hmem
  rcases exists_of_mem_paths hmem with ⟨other, hother, u, heq⟩
  have hname : name = other := (List.cons.inj (List.append_cancel_left heq)).1
  exact h (hname ▸ hother)

theorem paths_nodup {l : Listing N} (h : l.Distinct) (here : List N) : (l.paths here).Nodup := by
  induction l generalizing here with
  | nil =>
      exact List.nodup_nil
  | file name rest ih =>
      exact List.nodup_cons.2 ⟨notMem_paths h.1, ih h.2 here⟩
  | dir name entries rest ihEntries ih =>
      refine List.nodup_append'.2 ⟨ihEntries h.2.1 _, ih h.2.2 here, ?_⟩
      intro p hentries hrest
      rcases exists_of_mem_paths hentries with ⟨other, -, t, rfl⟩
      rw [List.append_assoc, List.singleton_append] at hrest
      exact notMem_paths h.1 hrest

/-- From one directory the walk meets each file below it, and meets it once. -/
theorem walk_nodup {l : Listing N} (h : l.Distinct) (here : List N) :
    (walk [(here, l)]).Nodup := by
  rw [(walk_perm [(here, l)]).nodup_iff]
  simpa using paths_nodup h here

theorem mem_walk {l : Listing N} {here p : List N} : p ∈ walk [(here, l)] ↔ p ∈ l.paths here := by
  rw [(walk_perm [(here, l)]).mem_iff]
  simp

end Listing

end Lib
end Squiddish
