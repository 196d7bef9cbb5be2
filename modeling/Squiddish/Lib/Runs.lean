import Mathlib.Logic.Basic

/-!
# Runs — finite runs of labelled transition systems

A system is given by a labelled relation `Step s a t`.  This file supplies

* `Run Step s as t` : the system goes from `s` to `t` by the labels `as`;
* `Guarded Step ok` : the steps of `Step` that meet the condition `ok` in the state they start
  from, so that a run of it is a run of `Step` *all of whose steps meet the condition*;
* `Into Step P` : the steps of `Step` that lead into states of `P`;
* the rule of invariants, and its relative form, where a second invariant may be assumed;
* `Run.simulate` : a system whose steps are matched by runs of another has its runs matched;
* `Run.purge` : steps that nobody sees may be left out.
-/

namespace Squiddish
namespace Lib

variable {σ α : Type*} {Step Step' : σ → α → σ → Prop}

/-! ## Runs -/

inductive Run (Step : σ → α → σ → Prop) : σ → List α → σ → Prop
  | nil (s : σ) : Run Step s [] s
  | cons {s t u : σ} {a : α} {as : List α} :
      Step s a t → Run Step t as u → Run Step s (a :: as) u

namespace Run

theorem single {s t : σ} {a : α} (h : Step s a t) : Run Step s [a] t :=
  .cons h (.nil t)

theorem append {s t u : σ} {as bs : List α} (h₁ : Run Step s as t) (h₂ : Run Step t bs u) :
    Run Step s (as ++ bs) u := by
  induction h₁ with
  | nil s =>
      exact h₂
  | cons hstep _ ih =>
      exact .cons hstep (ih h₂)

theorem snoc {s t u : σ} {as : List α} {a : α} (h₁ : Run Step s as t) (h₂ : Step t a u) :
    Run Step s (as ++ [a]) u :=
  h₁.append (single h₂)

/-- Every step of the run may be replaced by a step of a larger relation. -/
theorem mono (hle : ∀ s a t, Step s a t → Step' s a t) {s t : σ} {as : List α}
    (h : Run Step s as t) : Run Step' s as t := by
  induction h with
  | nil s =>
      exact .nil s
  | cons hstep _ ih =>
      exact .cons (hle _ _ _ hstep) ih

/-! ## Invariants -/

/-- What holds at the start and is preserved by every step holds at the end of a run. -/
theorem invariant {I : σ → Prop} (hstep : ∀ s a t, I s → Step s a t → I t)
    {s t : σ} {as : List α} (h : Run Step s as t) (hs : I s) : I t := by
  induction h with
  | nil s =>
      exact hs
  | cons h₁ _ ih =>
      exact ih (hstep _ _ _ hs h₁)

/-- The rule of invariants when something is known of the labels of the run. -/
theorem invariant_of_mem {I : σ → Prop} {s t : σ} {as : List α}
    (hstep : ∀ s a t, a ∈ as → I s → Step s a t → I t) (h : Run Step s as t) (hs : I s) :
    I t := by
  induction h with
  | nil s =>
      exact hs
  | cons h₁ _ ih =>
      exact ih (fun s b t hb => hstep s b t (List.mem_cons_of_mem _ hb))
        (hstep _ _ _ List.mem_cons_self hs h₁)

/-- The rule of invariants when the invariant speaks of the labels so far as well. -/
theorem history {I : List α → σ → Prop}
    (hstep : ∀ as s a t, I as s → Step s a t → I (as ++ [a]) t)
    {s t : σ} {b as : List α} (h : Run Step s as t) (hs : I b s) : I (b ++ as) t := by
  induction h generalizing b with
  | nil s =>
      simpa using hs
  | cons h₁ _ ih =>
      simpa using ih (hstep _ _ _ _ hs h₁)

/-- The rule of invariants when a step preserves `I` only in states that satisfy the known
invariant `J`. -/
theorem invariant_under {I J : σ → Prop} (hJ : ∀ s a t, J s → Step s a t → J t)
    (hI : ∀ s a t, J s → I s → Step s a t → I t)
    {s t : σ} {as : List α} (h : Run Step s as t) (hJs : J s) (hIs : I s) : I t := by
  have hboth : J t ∧ I t :=
    h.invariant (I := fun s => J s ∧ I s)
      (fun s a t hs hst => ⟨hJ s a t hs.1 hst, hI s a t hs.1 hs.2 hst⟩) ⟨hJs, hIs⟩
  exact hboth.2

/-! ## Simulation -/

/-- When every step is matched by a run of the other system, so is every run. -/
theorem simulate {τ β : Type*} {Step' : τ → β → τ → Prop} {R : σ → τ → Prop}
    (hsim : ∀ s a t s', R s s' → Step s a t → ∃ bs t', Run Step' s' bs t' ∧ R t t')
    {s t : σ} {as : List α} (h : Run Step s as t) {s' : τ} (hs : R s s') :
    ∃ bs t', Run Step' s' bs t' ∧ R t t' := by
  induction h generalizing s' with
  | nil s =>
      exact ⟨[], s', .nil s', hs⟩
  | cons hstep _ ih =>
      rcases hsim _ _ _ _ hs hstep with ⟨bs, t', hfirst, ht⟩
      rcases ih ht with ⟨cs, u', hrest, hu⟩
      exact ⟨bs ++ cs, u', hfirst.append hrest, hu⟩

/-- The rule of unwinding.  When the steps that are not kept cannot be seen from `R`, and the others
can be taken from both sides, the steps that are not kept may be left out of a run. -/
theorem purge {keep : α → Prop} [DecidablePred keep] {R : σ → σ → Prop}
    (hskip : ∀ s a t s', ¬ keep a → R s s' → Step s a t → R t s')
    (hkeep : ∀ s a t s', keep a → R s s' → Step s a t → ∃ t', Step s' a t' ∧ R t t')
    {s t : σ} {as : List α} (h : Run Step s as t) {s' : σ} (hs : R s s') :
    ∃ t', Run Step s' (as.filter keep) t' ∧ R t t' := by
  induction h generalizing s' with
  | nil s =>
      exact ⟨s', .nil s', hs⟩
  | @cons s t u a as hstep _ ih =>
      by_cases ha : keep a
      · rcases hkeep _ _ _ _ ha hs hstep with ⟨t', hstep', ht⟩
        rcases ih ht with ⟨u', hrest, hu⟩
        exact ⟨u', by simpa [ha] using Run.cons hstep' hrest, hu⟩
      · rcases ih (hskip _ _ _ _ ha hs hstep) with ⟨u', hrest, hu⟩
        exact ⟨u', by simpa [ha] using hrest, hu⟩

end Run

/-! ## Guarded steps -/

/-- The steps that meet the condition `ok` in the state they start from. -/
def Guarded (Step : σ → α → σ → Prop) (ok : σ → α → Prop) : σ → α → σ → Prop :=
  fun s a t => Step s a t ∧ ok s a

theorem Run.of_guarded {ok : σ → α → Prop} {s t : σ} {as : List α}
    (h : Run (Guarded Step ok) s as t) : Run Step s as t :=
  h.mono (fun _ _ _ hst => hst.1)

/-- When a step meets the condition exactly if its label is one of `P`, the runs of such steps are
the runs with such labels only. -/
theorem Run.guarded_iff_forall {ok : σ → α → Prop} {J : σ → Prop} {P : α → Prop}
    (hJ : ∀ s a t, J s → Step s a t → J t)
    (hok : ∀ s a t, J s → Step s a t → (ok s a ↔ P a)) {s t : σ} {as : List α} (hJs : J s) :
    Run (Guarded Step ok) s as t ↔ Run Step s as t ∧ ∀ a ∈ as, P a := by
  constructor
  · intro h
    refine ⟨h.of_guarded, ?_⟩
    induction h with
    | nil s =>
        simp
    | cons hstep _ ih =>
        have hfirst := (hok _ _ _ hJs hstep.1).1 hstep.2
        have hrest := ih (hJ _ _ _ hJs hstep.1)
        simpa using ⟨hfirst, hrest⟩
  · rintro ⟨h, hall⟩
    induction h with
    | nil s =>
        exact .nil s
    | cons hstep _ ih =>
        have hfirst := (hok _ _ _ hJs hstep).2 (hall _ List.mem_cons_self)
        have hrest := ih (hJ _ _ _ hJs hstep) (fun a ha => hall a (List.mem_cons_of_mem _ ha))
        exact .cons ⟨hstep, hfirst⟩ hrest

/-- Conditions that come to the same in every state of `J` guard the same runs. -/
theorem Run.guarded_congr {ok ok' : σ → α → Prop} {J : σ → Prop}
    (hJ : ∀ s a t, J s → Step s a t → J t)
    (hok : ∀ s a t, J s → Step s a t → (ok s a ↔ ok' s a)) {s t : σ} {as : List α} (hJs : J s) :
    Run (Guarded Step ok) s as t ↔ Run (Guarded Step ok') s as t := by
  have himp : ∀ c d : σ → α → Prop, (∀ s a t, J s → Step s a t → c s a → d s a) →
      Run (Guarded Step c) s as t → Run (Guarded Step d) s as t := by
    intro c d hcd h
    induction h with
    | nil s =>
        exact .nil s
    | cons hstep _ ih =>
        have hmet := hcd _ _ _ hJs hstep.1 hstep.2
        exact .cons ⟨hstep.1, hmet⟩ (ih (hJ _ _ _ hJs hstep.1))
  constructor
  · exact himp _ _ (fun s a t hs hstep => (hok s a t hs hstep).1)
  · exact himp _ _ (fun s a t hs hstep => (hok s a t hs hstep).2)

/-- The steps that lead into states that satisfy `P`. -/
def Into (Step : σ → α → σ → Prop) (P : σ → Prop) : σ → α → σ → Prop :=
  fun s a t => Step s a t ∧ P t

/-- When a step keeps `P` exactly if it meets the condition, the runs of such steps are the runs
that never leave `P`. -/
theorem Run.guarded_iff_into {ok : σ → α → Prop} {J P : σ → Prop}
    (hJ : ∀ s a t, J s → Step s a t → J t)
    (hok : ∀ s a t, J s → P s → Step s a t → (P t ↔ ok s a))
    {s t : σ} {as : List α} (hJs : J s) (hPs : P s) :
    Run (Guarded Step ok) s as t ↔ Run (Into Step P) s as t := by
  constructor
  · intro h
    induction h with
    | nil s =>
        exact .nil s
    | cons hstep _ ih =>
        have hPt := (hok _ _ _ hJs hPs hstep.1).2 hstep.2
        exact .cons ⟨hstep.1, hPt⟩ (ih (hJ _ _ _ hJs hstep.1) hPt)
  · intro h
    induction h with
    | nil s =>
        exact .nil s
    | cons hstep _ ih =>
        have hmet := (hok _ _ _ hJs hPs hstep.1).1 hstep.2
        exact .cons ⟨hstep.1, hmet⟩ (ih (hJ _ _ _ hJs hstep.1) hstep.2)

end Lib
end Squiddish
