import Mathlib.Data.List.Nodup
import Mathlib.Data.List.Perm.Basic

/-!
# Pool — tasks that hold one permit of a semaphore each

A semaphore counts its free permits.  Every task of the pool is spawned with a permit and gives it
back when it ends, however it ends.

* `spawn`, `become`, `finish` : a task begins, goes on with other work, ends;
* `Balanced max` : the permits are free or held, and the tasks have different names;
* `collect f` : what the tasks hold, each at most one thing;
* `Ended id` : the task of this name has been spawned and has ended, and that is final.
-/

namespace Squiddish
namespace Lib

/-- The free permits, the number of tasks that were ever spawned, and the live tasks with their
names, in no particular order. -/
structure Pool (W : Type) where
  available : Nat
  spawned : Nat
  tasks : List (Nat × W)
  deriving DecidableEq, Repr

namespace Pool

variable {W β : Type}

def start (max : Nat) : Pool W :=
  { available := max, spawned := 0, tasks := [] }

def tasksBut (id : Nat) (p : Pool W) : List (Nat × W) :=
  p.tasks.filter (fun task => task.1 ≠ id)

def spawn (w : W) (p : Pool W) : Pool W :=
  { available := p.available - 1
    spawned := p.spawned + 1
    tasks := (p.spawned, w) :: p.tasks }

def become (id : Nat) (w : W) (p : Pool W) : Pool W :=
  { p with tasks := (id, w) :: p.tasksBut id }

def finish (id : Nat) (p : Pool W) : Pool W :=
  { p with
    available := p.available + 1
    tasks := p.tasksBut id }

/-- What the tasks hold. -/
def collect (f : W → Option β) (p : Pool W) : List β :=
  p.tasks.filterMap (fun task => f task.2)

/-! ## The balance -/

/-- Every permit is free or held by one live task, and no name is given twice. -/
structure Balanced (max : Nat) (p : Pool W) : Prop where
  permits : p.available + p.tasks.length = max
  nodup : (p.tasks.map Prod.fst).Nodup
  fresh : ∀ task ∈ p.tasks, task.1 < p.spawned

section Balance

variable {max id : Nat} {w w' : W} {p : Pool W}

theorem mem_tasksBut {task : Nat × W} :
    task ∈ p.tasksBut id ↔ task ∈ p.tasks ∧ task.1 ≠ id := by
  simp [tasksBut, List.mem_filter]

namespace Balanced

theorem start (max : Nat) : Balanced max (Pool.start max : Pool W) where
  permits := Nat.add_zero max
  nodup := List.nodup_nil
  fresh := by simp [Pool.start]

/-- A live task and the others. -/
theorem perm_tasks (h : Balanced max p) (hmem : (id, w) ∈ p.tasks) :
    p.tasks.Perm ((id, w) :: p.tasksBut id) := by
  obtain ⟨front, back, hsplit⟩ := List.append_of_mem hmem
  have hnodup := h.nodup
  have hperm : p.tasks.Perm ((id, w) :: (front ++ back)) := by
    rw [hsplit]
    exact List.perm_middle
  have hother : ∀ task ∈ front ++ back, task.1 ≠ id := by
    intro task htask heq
    have hnodup' := (hperm.map Prod.fst).nodup_iff.1 hnodup
    exact (List.nodup_cons.1 hnodup').1 (List.mem_map.2 ⟨task, htask, heq⟩)
  have hfilter : (front ++ back).filter (fun task => task.1 ≠ id) = front ++ back :=
    List.filter_eq_self.2 (fun task htask => by simpa using hother task htask)
  -- the others are what the filter keeps of the permuted list
  have hbut : (p.tasksBut id).Perm (front ++ back) := by
    have hkeep := hperm.filter (fun task => task.1 ≠ id)
    rw [List.filter_cons_of_neg (by simp), hfilter] at hkeep
    exact hkeep
  exact hperm.trans (hbut.symm.cons _)

theorem length_tasksBut (h : Balanced max p) (hmem : (id, w) ∈ p.tasks) :
    (p.tasksBut id).length + 1 = p.tasks.length :=
  (h.perm_tasks hmem).length_eq.symm

/-- There is a free permit as long as there are fewer tasks than permits. -/
theorem available_pos_iff (h : Balanced max p) : 0 < p.available ↔ p.tasks.length < max := by
  have hpermits := h.permits
  omega

theorem spawn (h : Balanced max p) (hfree : 0 < p.available) (w : W) :
    Balanced max (p.spawn w) where
  permits := by
    calc
      p.available - 1 + (p.tasks.length + 1) = p.available + p.tasks.length := by omega
      _ = max := h.permits
  nodup := by
    refine List.nodup_cons.2 ⟨?_, h.nodup⟩
    intro hmem
    obtain ⟨task, htask, heq⟩ := List.mem_map.1 hmem
    exact Nat.lt_irrefl _ (heq ▸ h.fresh task htask)
  fresh := by
    intro task htask
    rcases List.mem_cons.1 htask with rfl | hold
    · exact Nat.lt_succ_self _
    · exact Nat.lt_succ_of_lt (h.fresh task hold)

theorem nodup_tasksBut (h : Balanced max p) (id : Nat) :
    ((p.tasksBut id).map Prod.fst).Nodup :=
  h.nodup.sublist (List.filter_sublist.map _)

theorem become (h : Balanced max p) (hmem : (id, w) ∈ p.tasks) (w' : W) :
    Balanced max (p.become id w') where
  permits := by
    calc
      p.available + ((p.tasksBut id).length + 1) = p.available + p.tasks.length := by
            rw [h.length_tasksBut hmem]
      _ = max := h.permits
  nodup := by
    refine List.nodup_cons.2 ⟨?_, h.nodup_tasksBut id⟩
    intro hin
    obtain ⟨task, htask, heq⟩ := List.mem_map.1 hin
    exact (mem_tasksBut.1 htask).2 heq
  fresh := by
    intro task htask
    rcases List.mem_cons.1 htask with rfl | hold
    · exact h.fresh (id, w) hmem
    · exact h.fresh task (mem_tasksBut.1 hold).1

theorem finish (h : Balanced max p) (hmem : (id, w) ∈ p.tasks) : Balanced max (p.finish id) where
  permits := by
    calc
      p.available + 1 + (p.tasksBut id).length = p.available + p.tasks.length := by
            rw [← h.length_tasksBut hmem, Nat.add_assoc, Nat.add_comm 1]
      _ = max := h.permits
  nodup := h.nodup_tasksBut id
  fresh := fun task htask => h.fresh task (mem_tasksBut.1 htask).1

end Balanced

/-! ## Tasks that have ended -/

/-- The task was spawned and is not alive any more. -/
def Ended (p : Pool W) (id : Nat) : Prop :=
  id < p.spawned ∧ ∀ w, (id, w) ∉ p.tasks

namespace Ended

variable {id' : Nat}

theorem spawn (h : p.Ended id) (w : W) : (p.spawn w).Ended id := by
  refine ⟨Nat.lt_succ_of_lt h.1, ?_⟩
  intro v hmem
  rcases List.mem_cons.1 hmem with heq | hold
  -- the new name was given to no task before
  · exact Nat.ne_of_lt h.1 (Prod.mk.inj heq).1
  · exact h.2 v hold

theorem become (h : p.Ended id) (hmem : (id', w) ∈ p.tasks) (w' : W) :
    (p.become id' w').Ended id := by
  refine ⟨h.1, ?_⟩
  intro v hin
  rcases List.mem_cons.1 hin with heq | hold
  · rw [(Prod.mk.inj heq).1] at h
    exact h.2 w hmem
  · exact h.2 v (mem_tasksBut.1 hold).1

theorem finish (h : p.Ended id) (id' : Nat) : (p.finish id').Ended id :=
  ⟨h.1, fun v hin => h.2 v (mem_tasksBut.1 hin).1⟩

theorem of_finish (h : Balanced max p) (hmem : (id, w) ∈ p.tasks) : (p.finish id).Ended id :=
  ⟨h.fresh (id, w) hmem, fun _ hin => (mem_tasksBut.1 hin).2 rfl⟩

end Ended

/-- When every task has ended all permits are free. -/
theorem Balanced.available_of_ended (h : Balanced max p)
    (hended : ∀ id < p.spawned, p.Ended id) : p.available = max := by
  have hnone : p.tasks = [] := by
    rw [List.eq_nil_iff_forall_not_mem]
    intro task htask
    exact (hended task.1 (h.fresh task htask)).2 task.2 htask
  simpa [hnone] using h.permits

end Balance

/-! ## What the tasks hold -/

section Collect

variable {max id : Nat} {w w' : W} {p : Pool W} (f : W → Option β)

/-- The tasks hold no more than there are permits. -/
theorem Balanced.length_collect_le (h : Balanced max p) : (p.collect f).length ≤ max := by
  have hpermits := h.permits
  calc
    (p.collect f).length ≤ p.tasks.length := List.length_filterMap_le _ _
    _ ≤ p.available + p.tasks.length := Nat.le_add_left _ _
    _ = max := hpermits

theorem collect_spawn : (p.spawn w).collect f = (f w).toList ++ p.collect f := by
  cases hw : f w <;> simp [collect, spawn, hw]

theorem collect_become : (p.become id w).collect f = (f w).toList ++ (p.finish id).collect f := by
  cases hw : f w <;> simp [collect, become, finish, hw]

variable {f} in
/-- What a task holds and what the others do. -/
theorem Balanced.perm_collect (h : Balanced max p) (hmem : (id, w) ∈ p.tasks) :
    (p.collect f).Perm ((f w).toList ++ (p.finish id).collect f) := by
  have hperm := (h.perm_tasks hmem).filterMap (fun task => f task.2)
  cases hw : f w <;> simpa [collect, Pool.finish, hw] using hperm

end Collect

end Pool

end Lib
end Squiddish
