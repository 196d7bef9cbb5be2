import Mathlib.Logic.Relation

/-!
# Prog — programs over an interface of operations

A program either returns, or calls an operation and goes on with its answer.  What an operation
does to the state is given apart from the program, by a relation `perf op s r t`: called in `s` it
may answer `r` and leave `t`.  This file supplies

* `exec` : the run of a program when every operation is a function of the state;
* `Step` : one operation at a time, so that a program can be cut or interleaved anywhere;
* `Holds` : an assertion for every operation the program calls and one for its answer, with the
  rules of sequencing, weakening and stepping.
-/

namespace Squiddish
namespace Lib

/-- Programs whose operation `op` is answered by a value of type `Resp op`. -/
inductive Prog {Op : Type} (Resp : Op → Type) (α : Type) : Type
  | ret (a : α)
  | call (op : Op) (next : Resp op → Prog Resp α)

namespace Prog

variable {Op : Type} {Resp : Op → Type} {σ : Type*} {α β : Type}

/-! ## Sequencing -/

protected def bind : Prog Resp α → (α → Prog Resp β) → Prog Resp β
  | .ret a, q => q a
  | .call op next, q => .call op (fun r => (next r).bind q)

instance : Monad (Prog Resp) where
  pure := .ret
  bind := Prog.bind

/-- The program that calls one operation and returns its answer. -/
def lift (op : Op) : Prog Resp (Resp op) :=
  .call op .ret

@[simp] theorem pure_eq (a : α) : (pure a : Prog Resp α) = .ret a :=
  rfl

@[simp] theorem ret_bind (a : α) (q : α → Prog Resp β) : (.ret a : Prog Resp α) >>= q = q a :=
  rfl

@[simp] theorem call_bind (op : Op) (next : Resp op → Prog Resp α) (q : α → Prog Resp β) :
    (.call op next : Prog Resp α) >>= q = .call op (fun r => next r >>= q) :=
  rfl

@[simp] theorem lift_bind (op : Op) (q : Resp op → Prog Resp β) :
    (lift op : Prog Resp (Resp op)) >>= q = .call op q :=
  rfl

@[simp] theorem bind_ret (p : Prog Resp α) : (p >>= fun a => .ret a) = p := by
  induction p with
  | ret a =>
      rfl
  | call op next ih =>
      simp [ih]

theorem bind_assoc {γ : Type} (p : Prog Resp α) (q : α → Prog Resp β) (r : β → Prog Resp γ) :
    p >>= q >>= r = p >>= fun a => q a >>= r := by
  induction p with
  | ret a =>
      rfl
  | call op next ih =>
      simp [ih]

/-- The operation a program is about to call. -/
def pending : Prog Resp α → Option Op
  | .ret _ => none
  | .call op _ => some op

/-! ## Execution -/

/-- The answer and the final state when every operation is a function of the state. -/
def exec (apply : (op : Op) → σ → Resp op × σ) : Prog Resp α → σ → α × σ
  | .ret a, s => (a, s)
  | .call op next, s => exec apply (next (apply op s).1) (apply op s).2

section Exec

variable (apply : (op : Op) → σ → Resp op × σ)

@[simp] theorem exec_ret (a : α) (s : σ) : exec apply (.ret a : Prog Resp α) s = (a, s) :=
  rfl

@[simp] theorem exec_call (op : Op) (next : Resp op → Prog Resp α) (s : σ) :
    exec apply (.call op next) s = exec apply (next (apply op s).1) (apply op s).2 :=
  rfl

@[simp] theorem exec_bind (p : Prog Resp α) (q : α → Prog Resp β) (s : σ) :
    exec apply (p >>= q) s = exec apply (q (exec apply p s).1) (exec apply p s).2 := by
  induction p generalizing s with
  | ret a =>
      rfl
  | call op next ih =>
      simpa using ih _ _

end Exec

/-! ## One operation at a time -/

/-- The operation a program is about to call is performed. -/
inductive Step (perf : (op : Op) → σ → Resp op → σ → Prop) :
    Prog Resp α × σ → Prog Resp α × σ → Prop
  | call {op : Op} {next : Resp op → Prog Resp α} {s t : σ} {r : Resp op} :
      perf op s r t → Step perf (.call op next, s) (next r, t)

/-- The relation of operations that are functions of the state. -/
def Does (apply : (op : Op) → σ → Resp op × σ) (op : Op) (s : σ) (r : Resp op) (t : σ) : Prop :=
  apply op s = (r, t)

/-- Step by step, a program reaches what `exec` computes. -/
theorem steps_exec (apply : (op : Op) → σ → Resp op × σ) (p : Prog Resp α) (s : σ) :
    Relation.ReflTransGen (Step (Does apply)) (p, s)
      (.ret (exec apply p s).1, (exec apply p s).2) := by
  induction p generalizing s with
  | ret a =>
      exact .refl
  | call op next ih =>
      exact .head (.call rfl) (ih _ _)

/-- The steps of the first part are steps of the whole. -/
theorem steps_bind {perf : (op : Op) → σ → Resp op → σ → Prop} {c d : Prog Resp α × σ}
    (h : Relation.ReflTransGen (Step perf) c d) (q : α → Prog Resp β) :
    Relation.ReflTransGen (Step perf) (c.1 >>= q, c.2) (d.1 >>= q, d.2) := by
  induction h with
  | refl =>
      exact .refl
  | tail _ hstep ih =>
      cases hstep with
      | call hr =>
          exact ih.tail (.call hr)

/-- The first part of a program may be run to its end. -/
theorem steps_bind_exec (apply : (op : Op) → σ → Resp op × σ) (p : Prog Resp α)
    (q : α → Prog Resp β) (s : σ) :
    Relation.ReflTransGen (Step (Does apply)) (p >>= q, s)
      (q (exec apply p s).1, (exec apply p s).2) := by
  induction p generalizing s with
  | ret a =>
      exact .refl
  | call op next ih =>
      exact .head (.call rfl) (ih _ _)

/-! ## The operations a program may call -/

/-- Whatever the answers, the program calls operations of this kind only. -/
def OnlyCalls (kind : Op → Prop) : Prog Resp α → Prop
  | .ret _ => True
  | .call op next => kind op ∧ ∀ r, OnlyCalls kind (next r)

namespace OnlyCalls

variable {kind : Op → Prop}

theorem bind {p : Prog Resp α} {q : α → Prog Resp β} (hp : OnlyCalls kind p)
    (hq : ∀ a, OnlyCalls kind (q a)) : OnlyCalls kind (p >>= q) := by
  induction p with
  | ret a =>
      exact hq a
  | call op next ih =>
      exact ⟨hp.1, fun r => ih r (hp.2 r)⟩

theorem mono {kind' : Op → Prop} (hle : ∀ op, kind op → kind' op) {p : Prog Resp α}
    (h : OnlyCalls kind p) : OnlyCalls kind' p := by
  induction p with
  | ret a =>
      trivial
  | call op next ih =>
      exact ⟨hle op h.1, fun r => ih r (h.2 r)⟩

/-- Operations that leave the state make programs that leave it. -/
theorem exec_store {apply : (op : Op) → σ → Resp op × σ}
    (hkind : ∀ op s, kind op → (apply op s).2 = s) {p : Prog Resp α} (h : OnlyCalls kind p)
    (s : σ) : (Prog.exec apply p s).2 = s := by
  induction p generalizing s with
  | ret a =>
      rfl
  | call op next ih =>
      have hrest := ih (apply op s).1 (h.2 _) (apply op s).2
      simpa [hkind op s h.1] using hrest

end OnlyCalls

/-- Whatever the answers, the program returns such values only. -/
def OnlyReturns (post : α → Prop) : Prog Resp α → Prop
  | .ret a => post a
  | .call _ next => ∀ r, OnlyReturns post (next r)

theorem OnlyReturns.bind {mid : α → Prop} {post : β → Prop} {p : Prog Resp α}
    {q : α → Prog Resp β} (hp : OnlyReturns mid p) (hq : ∀ a, mid a → OnlyReturns post (q a)) :
    OnlyReturns post (p >>= q) := by
  induction p with
  | ret a =>
      exact hq a hp
  | call op next ih =>
      exact fun r => ih r (hp r)

/-! ## Answers a program does not tell apart -/

/-- After alike answers the program goes on alike. -/
def Respects (alike : (op : Op) → Resp op → Resp op → Prop) : Prog Resp α → Prop
  | .ret _ => True
  | .call op next => (∀ r r', alike op r r' → next r = next r') ∧ ∀ r, Respects alike (next r)

namespace Respects

variable {alike : (op : Op) → Resp op → Resp op → Prop}

theorem bind {p : Prog Resp α} {q : α → Prog Resp β} (hp : Respects alike p)
    (hq : ∀ a, Respects alike (q a)) : Respects alike (p >>= q) := by
  induction p with
  | ret a =>
      exact hq a
  | call op next ih =>
      refine ⟨?_, fun r => ih r (hp.2 r)⟩
      intro r r' hr
      show next r >>= q = next r' >>= q
      rw [hp.1 r r' hr]

/-- Every program tells apart no more than what differs. -/
theorem of_eq (p : Prog Resp α) : Respects (fun _ => Eq) p := by
  induction p with
  | ret a =>
      trivial
  | call op next ih =>
      exact ⟨fun _ _ => congrArg next, ih⟩

end Respects

/-! ## Assertions -/

/-- `I op s` whenever the program calls `op` in the state `s`, and `Post a s` when it returns. -/
def Holds (perf : (op : Op) → σ → Resp op → σ → Prop) (I : Op → σ → Prop) (Post : α → σ → Prop) :
    Prog Resp α → σ → Prop
  | .ret a, s => Post a s
  | .call op next, s => I op s ∧ ∀ r t, perf op s r t → Holds perf I Post (next r) t

namespace Holds

variable {perf perf' : (op : Op) → σ → Resp op → σ → Prop} {I J : Op → σ → Prop}

@[simp] theorem ret_iff {Post : α → σ → Prop} {a : α} {s : σ} :
    Holds perf I Post (.ret a : Prog Resp α) s ↔ Post a s :=
  Iff.rfl

@[simp] theorem call_iff {Post : α → σ → Prop} {op : Op} {next : Resp op → Prog Resp α} {s : σ} :
    Holds perf I Post (.call op next) s ↔
      I op s ∧ ∀ r t, perf op s r t → Holds perf I Post (next r) t :=
  Iff.rfl

theorem call {Post : α → σ → Prop} {op : Op} {next : Resp op → Prog Resp α} {s : σ}
    (hI : I op s) (hnext : ∀ r t, perf op s r t → Holds perf I Post (next r) t) :
    Holds perf I Post (.call op next) s :=
  ⟨hI, hnext⟩

/-- The rule of sequencing: the first part ends where the second may start. -/
theorem bind {Post : β → σ → Prop} {p : Prog Resp α} {q : α → Prog Resp β} {s : σ}
    (h : Holds perf I (fun a t => Holds perf I Post (q a) t) p s) :
    Holds perf I Post (p >>= q) s := by
  induction p generalizing s with
  | ret a =>
      exact h
  | call op next ih =>
      exact ⟨h.1, fun r t hr => ih r (h.2 r t hr)⟩

theorem mono {Post Post' : α → σ → Prop} (hIJ : ∀ op s, I op s → J op s)
    (hPost : ∀ a s, Post a s → Post' a s) {p : Prog Resp α} {s : σ}
    (h : Holds perf I Post p s) : Holds perf J Post' p s := by
  induction p generalizing s with
  | ret a =>
      exact hPost _ _ h
  | call op next ih =>
      exact ⟨hIJ _ _ h.1, fun r t hr => ih r (h.2 r t hr)⟩

theorem imp {Post Post' : α → σ → Prop} {p : Prog Resp α} {s : σ}
    (h : Holds perf I Post p s) (hPost : ∀ a s, Post a s → Post' a s) :
    Holds perf I Post' p s :=
  h.mono (fun _ _ hI => hI) hPost

/-- What holds whatever an operation may do holds when it may do less. -/
theorem of_perf {Post : α → σ → Prop} (hle : ∀ op s r t, perf' op s r t → perf op s r t)
    {p : Prog Resp α} {s : σ} (h : Holds perf I Post p s) : Holds perf' I Post p s := by
  induction p generalizing s with
  | ret a =>
      exact h
  | call op next ih =>
      exact ⟨h.1, fun r t hr => ih r (h.2 r t (hle op s r t hr))⟩

theorem of_forall {Post : α → σ → Prop} (hI : ∀ op s, I op s) (hPost : ∀ a s, Post a s)
    (p : Prog Resp α) (s : σ) : Holds perf I Post p s := by
  induction p generalizing s with
  | ret a =>
      exact hPost a s
  | call op next ih =>
      exact ⟨hI op s, fun r t _ => ih r t⟩

/-- Sequencing with a name for the assertion between the two parts. -/
theorem seq {Mid : α → σ → Prop} {Post : β → σ → Prop} {p : Prog Resp α} {q : α → Prog Resp β}
    {s : σ} (hp : Holds perf I Mid p s) (hq : ∀ a t, Mid a t → Holds perf I Post (q a) t) :
    Holds perf I Post (p >>= q) s :=
  (hp.imp hq).bind

/-- What holds of a program holds of what is left of it after a step. -/
theorem step {Post : α → σ → Prop} {c d : Prog Resp α × σ} (h : Holds perf I Post c.1 c.2)
    (hstep : Step perf c d) : Holds perf I Post d.1 d.2 := by
  cases hstep with
  | call hr =>
      exact h.2 _ _ hr

/-- The assertion about the operation that is about to be called. -/
theorem of_pending {Post : α → σ → Prop} {p : Prog Resp α} {s : σ} {op : Op}
    (h : Holds perf I Post p s) (hop : p.pending = some op) : I op s := by
  cases p with
  | ret a =>
      simp [pending] at hop
  | call op' next =>
      have heq : op' = op := by
        simpa [pending] using hop
      exact heq ▸ h.1

/-- What holds of a program holds of what is left of it wherever it is cut. -/
theorem steps {Post : α → σ → Prop} {c d : Prog Resp α × σ} (h : Holds perf I Post c.1 c.2)
    (hsteps : Relation.ReflTransGen (Step perf) c d) : Holds perf I Post d.1 d.2 := by
  induction hsteps with
  | refl =>
      exact h
  | tail _ hstep ih =>
      exact ih.step hstep

/-- What is asserted of every call and of the end holds wherever the program is cut. -/
theorem of_steps {Inv : σ → Prop} {c d : Prog Resp α × σ}
    (h : Holds perf (fun _ t => Inv t) (fun _ t => Inv t) c.1 c.2)
    (hsteps : Relation.ReflTransGen (Step perf) c d) : Inv d.2 := by
  have hrest := h.steps hsteps
  rcases d with ⟨_ | ⟨op, next⟩, t⟩
  · exact hrest
  · exact hrest.1

/-- Wherever the program is cut, the operation it is about to call is of the kind. -/
theorem of_onlyCalls_kind {kind : Op → Prop} {p : Prog Resp α} (hp : OnlyCalls kind p) (s : σ) :
    Holds perf (fun op _ => kind op) (fun _ _ => True) p s := by
  induction p generalizing s with
  | ret a =>
      trivial
  | call op next ih =>
      exact ⟨hp.1, fun r t _ => ih r (hp.2 r) t⟩

/-- What operations of one kind keep, a program that calls no others keeps. -/
theorem of_onlyCalls {kind : Op → Prop} {Inv : σ → Prop}
    (hkeep : ∀ op s r t, kind op → Inv s → perf op s r t → Inv t) {p : Prog Resp α}
    (hp : OnlyCalls kind p) {s : σ} (hs : Inv s) :
    Holds perf (fun _ t => Inv t) (fun _ t => Inv t) p s := by
  induction p generalizing s with
  | ret a =>
      exact hs
  | call op next ih =>
      exact ⟨hs, fun r t hr => ih r (hp.2 r) (hkeep op s r t hp.1 hs hr)⟩

/-- When every operation does what `apply` does, up to answers that the program does not tell
apart, then the program does what `exec` computes. -/
theorem of_alike {apply : (op : Op) → σ → Resp op × σ}
    {alike : (op : Op) → Resp op → Resp op → Prop} {kind : Op → Prop}
    (hperf : ∀ op s r t, kind op → perf op s r t → alike op (apply op s).1 r ∧ t = (apply op s).2)
    {p : Prog Resp α} (hcalls : OnlyCalls kind p) (hp : Respects alike p) (s : σ) :
    Holds perf (fun _ _ => True) (fun a t => Prog.exec apply p s = (a, t)) p s := by
  induction p generalizing s with
  | ret a =>
      rfl
  | call op next ih =>
      refine .call trivial ?_
      intro r t hr
      rcases hperf op s r t hcalls.1 hr with ⟨halike, rfl⟩
      -- the answer is alike the one `exec` takes, so the program goes on in the same way
      rw [Prog.exec_call, hp.1 _ _ halike]
      exact ih r (hcalls.2 r) (hp.2 r) _

/-- The assertion about the end holds of what `exec` computes. -/
theorem exec {apply : (op : Op) → σ → Resp op × σ} {Post : α → σ → Prop} {p : Prog Resp α} {s : σ}
    (h : Holds (Does apply) I Post p s) :
    Post (Prog.exec apply p s).1 (Prog.exec apply p s).2 := by
  induction p generalizing s with
  | ret a =>
      exact h
  | call op next ih =>
      exact ih _ (h.2 _ _ rfl)

/-- What `exec` computes is all there is when operations are functions of the state. -/
theorem and_exec {apply : (op : Op) → σ → Resp op × σ} {Post : α → σ → Prop} {p : Prog Resp α}
    {s : σ} (h : Holds (Does apply) I Post p s) :
    Holds (Does apply) I (fun a t => Post a t ∧ Prog.exec apply p s = (a, t)) p s := by
  induction p generalizing s with
  | ret a =>
      exact ⟨h, rfl⟩
  | call op next ih =>
      refine ⟨h.1, ?_⟩
      intro r t hr
      have hr' : apply op s = (r, t) := hr
      refine (ih r (h.2 r t hr)).imp ?_
      rintro a u ⟨hpost, hexec⟩
      exact ⟨hpost, by simpa [hr'] using hexec⟩

end Holds

end Prog

end Lib
end Squiddish
