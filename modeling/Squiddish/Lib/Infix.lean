import Squiddish.Lib.Text

/-!
# Infixes — a separator that a pattern does not pass

Searching for a pattern in a text that is put together with separators.  A pattern without the
separator lies on one side of it; one that starts with the separator starts at one of its
places.

* `infix_append_cons_iff`, `prefix_append_cons_iff`, `suffix_append_cons_iff` : no separator in
  the pattern;
* `cons_infix_append_iff`, `cons_suffix_append_iff` : the pattern starts with it;
* `append_singleton_prefix_iff` : the pattern ends with it.
-/

namespace Squiddish
namespace Lib

variable {α : Type*} {c : α} {a b p s : List α}

/-- A prefix that starts with no separator is empty before one. -/
theorem eq_nil_of_prefix_cons (hc : c ∉ p) (h : p <+: c :: s) : p = [] := by
  rcases List.prefix_cons_iff.1 h with hnil | ⟨t, rfl, -⟩
  · exact hnil
  · exact absurd List.mem_cons_self hc

/-! ## Patterns without the separator -/

theorem infix_append_cons_iff (hc : c ∉ p) : p <:+: a ++ c :: b ↔ p <:+: a ∨ p <:+: b := by
  constructor
  · intro h
    rcases List.infix_append_iff.1 h with hleft | hright | ⟨p₁, p₂, rfl, h₁, h₂⟩
    · exact Or.inl hleft
    · rcases List.infix_cons_iff.1 hright with hpre | hin
      · rw [eq_nil_of_prefix_cons hc hpre]
        exact Or.inl List.nil_infix
      · exact Or.inr hin
    · have hnil := eq_nil_of_prefix_cons (fun hmem => hc (List.mem_append_right _ hmem)) h₂
      subst hnil
      rw [List.append_nil]
      exact Or.inl h₁.isInfix
  · rintro (h | h)
    · exact List.infix_append_of_infix_left h
    · exact List.infix_append_of_infix_right (List.infix_cons h)

theorem infix_cons_of_notMem (hc : c ∉ p) : p <:+: c :: b ↔ p <:+: b := by
  have hiff := infix_append_cons_iff (a := []) (b := b) hc
  rw [List.nil_append] at hiff
  rw [hiff, List.infix_nil]
  constructor
  · rintro (rfl | h)
    · exact List.nil_infix
    · exact h
  · exact Or.inr

theorem prefix_append_cons_iff (hc : c ∉ p) : p <+: a ++ c :: b ↔ p <+: a := by
  constructor
  · intro h
    rcases List.prefix_or_prefix_of_prefix h (List.prefix_append a (c :: b)) with hpa | ⟨t, rfl⟩
    · exact hpa
    · rw [List.prefix_append_right_inj] at h
      have hnil := eq_nil_of_prefix_cons (fun hmem => hc (List.mem_append_right _ hmem)) h
      simp [hnil]
  · exact List.prefix_append_of_prefix

theorem suffix_append_cons_iff (hc : c ∉ p) : p <:+ a ++ c :: b ↔ p <:+ b := by
  constructor
  · intro h
    rcases List.suffix_or_suffix_of_suffix h (List.suffix_append a (c :: b)) with hpb | hbp
    · rcases List.suffix_cons_iff.1 hpb with rfl | hin
      · exact absurd List.mem_cons_self hc
      · exact hin
    · exact absurd (hbp.subset List.mem_cons_self) hc
  · intro h
    exact List.suffix_append_of_suffix (h.trans (List.suffix_cons c b))

/-! ## Patterns that start or end with it -/

theorem cons_infix_append_iff (hc : c ∉ a) : c :: p <:+: a ++ s ↔ c :: p <:+: s := by
  constructor
  · intro h
    rcases List.infix_append_iff.1 h with hleft | hright | ⟨p₁, p₂, hp, h₁, h₂⟩
    · exact absurd (hleft.subset List.mem_cons_self) hc
    · exact hright
    · cases p₁ with
      | nil =>
          rw [List.nil_append] at hp
          rw [hp]
          exact h₂.isInfix
      | cons d ds =>
          have hd : c = d := (List.cons.inj hp).1
          subst hd
          exact absurd (h₁.subset List.mem_cons_self) hc
  · exact List.infix_append_of_infix_right

theorem cons_suffix_append_iff (hc : c ∉ p) :
    c :: p <:+ a ++ c :: b ↔ c :: p <:+ c :: b := by
  constructor
  · intro h
    rcases List.suffix_or_suffix_of_suffix h (List.suffix_append a (c :: b)) with hpb | hbp
    · exact hpb
    · rcases List.suffix_cons_iff.1 hbp with heq | hin
      · have hb : b = p := (List.cons.inj heq).2
        subst hb
        exact List.suffix_rfl
      · exact absurd (hin.subset List.mem_cons_self) hc
  · exact List.suffix_append_of_suffix

theorem append_singleton_prefix_iff [DecidableEq α] (hp : c ∉ p) (ha : c ∉ a) :
    p ++ [c] <+: a ++ c :: b ↔ p = a := by
  constructor
  · rintro ⟨t, ht⟩
    have hsplit := congrArg (splitOnce c) ht
    rw [List.append_assoc, List.singleton_append, splitOnce_append hp,
      splitOnce_append ha] at hsplit
    exact (Prod.mk.inj (Option.some.inj hsplit)).1
  · rintro rfl
    exact ⟨b, by simp⟩

end Lib
end Squiddish
