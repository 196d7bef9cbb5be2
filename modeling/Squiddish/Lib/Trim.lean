import Mathlib.Data.List.TakeWhile

/-!
# Trim — what is left between the ends of a list

`trimBy p s` is `s` without the elements at both ends of which `p` holds.
-/

namespace Squiddish
namespace Lib

variable {α : Type*} {p : α → Bool}

def trimBy (p : α → Bool) (s : List α) : List α :=
  ((s.dropWhile p).reverse.dropWhile p).reverse

theorem dropWhile_eq_self_of_forall {s : List α} (h : ∀ c ∈ s, p c = false) :
    s.dropWhile p = s := by
  cases s with
  | nil =>
      rfl
  | cons c s =>
      simp [h c List.mem_cons_self]

/-- A list is an end, what is left when it is trimmed, and an end. -/
theorem exists_eq_append_trimBy (s : List α) :
    ∃ a b, s = a ++ trimBy p s ++ b ∧ (∀ c ∈ a, p c = true) ∧ ∀ c ∈ b, p c = true := by
  let t := s.dropWhile p
  refine ⟨s.takeWhile p, (t.reverse.takeWhile p).reverse, ?_,
    fun c hc => List.mem_takeWhile_imp hc,
    fun c hc => List.mem_takeWhile_imp (List.mem_reverse.1 hc)⟩
  have ht : trimBy p s ++ (t.reverse.takeWhile p).reverse = t := by
    rw [trimBy, ← List.reverse_append, List.takeWhile_append_dropWhile, List.reverse_reverse]
  rw [List.append_assoc, ht, List.takeWhile_append_dropWhile]

/-- What is put to the ends and trimmed off again makes no difference. -/
theorem trimBy_append {a b : List α} (ha : ∀ c ∈ a, p c = true) (hb : ∀ c ∈ b, p c = true)
    (s : List α) : trimBy p (a ++ s ++ b) = trimBy p s := by
  have hreverse : ∀ c ∈ b.reverse, p c = true := fun c hc => hb c (List.mem_reverse.1 hc)
  have hstart : (a ++ s ++ b).dropWhile p = (s ++ b).dropWhile p := by
    rw [List.append_assoc, List.dropWhile_append_of_pos ha]
  rw [trimBy, hstart, List.dropWhile_append]
  cases hs : s.dropWhile p with
  -- there is nothing between the ends
  | nil =>
      have hnone : b.dropWhile p = [] := List.dropWhile_eq_nil_iff.2 hb
      simp [trimBy, hs, hnone]
  | cons c t =>
      have hend : ((c :: t ++ b).reverse).dropWhile p = (c :: t).reverse.dropWhile p := by
        rw [List.reverse_append, List.dropWhile_append_of_pos hreverse]
      simp only [List.isEmpty_cons, Bool.false_eq_true, if_false, hend, trimBy, hs]

theorem trimBy_eq_self {s : List α} (h : ∀ c ∈ s, p c = false) : trimBy p s = s := by
  have hreverse : ∀ c ∈ s.reverse, p c = false := fun c hc => h c (List.mem_reverse.1 hc)
  rw [trimBy, dropWhile_eq_self_of_forall h, dropWhile_eq_self_of_forall hreverse,
    List.reverse_reverse]

/-- What is left does not begin with an element that is trimmed off. -/
theorem head_trimBy {s t : List α} {c : α} (h : trimBy p s = c :: t) : p c = false := by
  have hpre : trimBy p s <+: s.dropWhile p := by
    have hsuffix := List.dropWhile_suffix (l := (s.dropWhile p).reverse) p
    simpa [trimBy] using List.reverse_prefix.2 hsuffix
  rw [h] at hpre
  rcases hpre with ⟨u, hu⟩
  have hne : s.dropWhile p ≠ [] := by
    rw [← hu]
    exact List.cons_ne_nil _ _
  have hhead := List.head_dropWhile_not p hne
  simpa [← hu] using hhead

/-- What is put behind a list that loses nothing is trimmed off again. -/
theorem trimBy_append_eq_self {s b : List α} (hs : ∀ c ∈ s, p c = false)
    (hb : ∀ c ∈ b, p c = true) : trimBy p (s ++ b) = s :=
  calc
    trimBy p (s ++ b) = trimBy p s := trimBy_append (a := []) (fun c hc => by cases hc) hb s
    _ = s := trimBy_eq_self hs

/-- The first part of a list that does not begin with an element that is trimmed off loses only its
end. -/
theorem exists_eq_trimBy_append {s rest : List α} (h : ∀ c t, s ++ rest = c :: t → p c = false) :
    ∃ b, s = trimBy p s ++ b ∧ ∀ c ∈ b, p c = true := by
  rcases exists_eq_append_trimBy (p := p) s with ⟨a, b, hparts, ha, hb⟩
  cases a with
  | nil =>
      exact ⟨b, hparts, hb⟩
  | cons c a =>
      have hhead : p c = false := h c _ (congrArg (fun u => u ++ rest) hparts)
      exact absurd (ha c List.mem_cons_self) (by simp [hhead])

end Lib
end Squiddish
