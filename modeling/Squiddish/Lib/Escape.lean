import Mathlib.Data.List.Basic
import Squiddish.Lib.Text

/-!
# Escape — texts in which special characters are written as entities

Some characters are special and each of them has an entity, a text that stands for it.  All
entities begin with one special character, the mark, which occurs in them nowhere else.

* `replace c r`  : one rewriting pass over a whole text;
* `passes rules` : one pass for each rule, each over what the passes before it left;
* `escape`       : every character is looked at once;
* `unescape`     : entities are read from left to right, each once.
-/

namespace Squiddish
namespace Lib

variable {α : Type*} [DecidableEq α]

/-! ## Rewriting passes -/

/-- Every `c` becomes `r`. -/
def replace (c : α) (r s : List α) : List α :=
  s.flatMap (fun d => if d = c then r else [d])

/-- The text of a character by the first rule that is about it. -/
def entityOf (rules : List (α × List α)) (c : α) : List α :=
  match rules.find? (fun p => p.1 = c) with
  | some p => p.2
  | none => [c]

def passes (rules : List (α × List α)) (s : List α) : List α :=
  rules.foldl (fun t p => replace p.1 p.2 t) s

theorem entityOf_of_notMem {rules : List (α × List α)} {c : α} (h : ∀ p ∈ rules, p.1 ≠ c) :
    entityOf rules c = [c] := by
  have hnone : rules.find? (fun p => p.1 = c) = none := by
    refine List.find?_eq_none.2 ?_
    intro p hp
    simpa using h p hp
  rw [entityOf, hnone]

theorem entityOf_cons_self (p : α × List α) (rules : List (α × List α)) :
    entityOf (p :: rules) p.1 = p.2 := by
  simp [entityOf]

theorem entityOf_cons_of_ne {p : α × List α} {c : α} (h : p.1 ≠ c)
    (rules : List (α × List α)) : entityOf (p :: rules) c = entityOf rules c := by
  simp [entityOf, h]

/-- Passes that leave the texts of the earlier rules alone are one pass. -/
theorem passes_eq_flatMap {rules : List (α × List α)}
    (h : rules.Pairwise (fun p q => q.1 ∉ p.2)) (s : List α) :
    passes rules s = s.flatMap (entityOf rules) := by
  induction rules generalizing s with
  | nil =>
      have hkeep : entityOf ([] : List (α × List α)) = fun c => [c] := rfl
      rw [hkeep, List.flatMap_singleton']
      rfl
  | cons p rules ih =>
      rcases List.pairwise_cons.1 h with ⟨hlater, hrules⟩
      -- the later passes find none of their characters in the text of the first rule
      have hkept : p.2.flatMap (entityOf rules) = p.2 := by
        have hsame : ∀ c ∈ p.2, entityOf rules c = [c] := by
          intro c hc
          refine entityOf_of_notMem ?_
          rintro q hq rfl
          exact hlater q hq hc
        calc
          p.2.flatMap (entityOf rules) = p.2.flatMap (fun c => [c]) := List.flatMap_congr hsame
          _ = p.2 := by simp
      calc
        passes (p :: rules) s = passes rules (replace p.1 p.2 s) := rfl
        _ = (replace p.1 p.2 s).flatMap (entityOf rules) := ih hrules _
        _ = s.flatMap (fun d => (if d = p.1 then p.2 else [d]).flatMap (entityOf rules)) :=
              List.flatMap_assoc
        _ = s.flatMap (entityOf (p :: rules)) := by
              refine List.flatMap_congr ?_
              intro d _
              by_cases hd : d = p.1
              · rw [if_pos hd, hkept, hd, entityOf_cons_self]
              · rw [if_neg hd, entityOf_cons_of_ne (Ne.symm hd)]
                simp

/-! ## Tables of entities -/

structure EscapeTable (α : Type*) where
  mark : α
  rules : List (α × List α)
  /-- The mark is special itself. -/
  special_mark : ∃ p ∈ rules, p.1 = mark
  entity : ∀ p ∈ rules, ∃ body, p.2 = mark :: body ∧ mark ∉ body
  /-- No other special character occurs in an entity. -/
  plain : ∀ p ∈ rules, ∀ q ∈ rules, q.1 ≠ mark → q.1 ∉ p.2
  /-- No entity begins another. -/
  prefixFree : ∀ p ∈ rules, ∀ q ∈ rules, p.2 <+: q.2 → p = q

namespace EscapeTable

variable (T : EscapeTable α)

def escape (s : List α) : List α :=
  s.flatMap (entityOf T.rules)

/-- `skip` characters of an entity that has been read are still to come. -/
def unescapeFrom : Nat → List α → List α
  | _, [] => []
  | skip + 1, _ :: s => unescapeFrom skip s
  | 0, c :: s =>
      match T.rules.find? (fun p => p.2 <+: c :: s) with
      | some p => p.1 :: unescapeFrom (p.2.length - 1) s
      | none => c :: unescapeFrom 0 s

def unescape (s : List α) : List α :=
  T.unescapeFrom 0 s

variable {T} {c : α} {s : List α}

/-- A character has an entity or stands for itself. -/
theorem entityOf_cases (T : EscapeTable α) (c : α) :
    (∃ p ∈ T.rules, p.1 = c ∧ entityOf T.rules c = p.2) ∨
      ((∀ p ∈ T.rules, p.1 ≠ c) ∧ entityOf T.rules c = [c]) := by
  cases hfind : T.rules.find? (fun p => p.1 = c) with
  | none =>
      right
      have hnone : ∀ p ∈ T.rules, p.1 ≠ c := by
        simpa using hfind
      exact ⟨hnone, entityOf_of_notMem hnone⟩
  | some p =>
      left
      have hp : p.1 = c := by
        simpa using List.find?_some hfind
      exact ⟨p, List.mem_of_find?_eq_some hfind, hp, by rw [entityOf, hfind]⟩

/-! ## What escaped text holds -/

/-- Of the special characters only the mark is left. -/
theorem notMem_escape {p : α × List α} (hp : p ∈ T.rules) (hmark : p.1 ≠ T.mark) (s : List α) :
    p.1 ∉ T.escape s := by
  intro hmem
  rcases List.mem_flatMap.1 hmem with ⟨c, -, hc⟩
  rcases T.entityOf_cases c with ⟨q, hq, -, hentity⟩ | ⟨hnone, hentity⟩
  · exact T.plain q hq p hp hmark (hentity ▸ hc)
  · rw [hentity, List.mem_singleton] at hc
    exact hnone p hp hc

/-- Wherever the mark stands, an entity begins. -/
theorem exists_entity_of_mark {a b : List α} (h : T.escape s = a ++ T.mark :: b) :
    ∃ p ∈ T.rules, p.2 <+: T.mark :: b := by
  induction s generalizing a with
  | nil =>
      simp [escape] at h
  | cons c s ih =>
      have hparts : entityOf T.rules c ++ T.escape s = a ++ T.mark :: b := h
      rcases T.entityOf_cases c with ⟨p, hp, -, hentity⟩ | ⟨hnone, hentity⟩
      · rcases T.entity p hp with ⟨body, hbody, hmark⟩
        rw [hentity, hbody] at hparts
        cases a with
        -- the entity of the first character is where the mark stands
        | nil =>
            exact ⟨p, hp, T.escape s, by rw [hbody]; exact hparts⟩
        | cons d a =>
            have hrest : body ++ T.escape s = a ++ T.mark :: b := (List.cons.inj hparts).2
            -- the mark is not in the rest of that entity
            rcases List.append_eq_append_iff.1 hrest with ⟨x, -, hs⟩ | ⟨x, hx, hs⟩
            · exact ih hs
            · cases x with
              | nil =>
                  exact ih (a := []) hs.symm
              | cons e x =>
                  have hmem : T.mark ∈ body := by
                    have he : T.mark = e := (List.cons.inj hs).1
                    rw [hx, he]
                    simp
                  exact absurd hmem hmark
      · rw [hentity] at hparts
        cases a with
        | nil =>
            have hc : c = T.mark := (List.cons.inj hparts).1
            rcases T.special_mark with ⟨p, hp, hpmark⟩
            exact absurd (hpmark.trans hc.symm) (hnone p hp)
        | cons d a =>
            exact ih (List.cons.inj hparts).2

/-! ## Reading it back -/

theorem unescapeFrom_append (T : EscapeTable α) (a s : List α) :
    T.unescapeFrom a.length (a ++ s) = T.unescapeFrom 0 s := by
  induction a with
  | nil =>
      rfl
  | cons d a ih =>
      simpa [unescapeFrom] using ih

/-- An entity at the front is read as its character. -/
theorem unescape_entity_append {p : α × List α} (hp : p ∈ T.rules) (s : List α) :
    T.unescape (p.2 ++ s) = p.1 :: T.unescape s := by
  rcases T.entity p hp with ⟨body, hbody, -⟩
  have hfind : T.rules.find? (fun q => q.2 <+: p.2 ++ s) = some p := by
    cases hfind : T.rules.find? (fun q => q.2 <+: p.2 ++ s) with
    | none =>
        have hnone := List.find?_eq_none.1 hfind p hp
        simp at hnone
    | some q =>
        have hq := List.mem_of_find?_eq_some hfind
        have hpre : q.2 <+: p.2 ++ s := by
          simpa using List.find?_some hfind
        -- of two entities at one place, one begins the other
        rcases List.prefix_or_prefix_of_prefix hpre (List.prefix_append p.2 s) with hqp | hpq
        · rw [T.prefixFree q hq p hp hqp]
        · rw [T.prefixFree p hp q hq hpq]
  rw [hbody, List.cons_append] at hfind ⊢
  simp only [unescape, unescapeFrom, hfind]
  have hlen : p.2.length - 1 = body.length := by
    simp [hbody]
  rw [hlen, unescapeFrom_append]

/-- A character that is not special is read as itself. -/
theorem unescape_cons_of_plain (hnone : ∀ p ∈ T.rules, p.1 ≠ c) (s : List α) :
    T.unescape (c :: s) = c :: T.unescape s := by
  have hfind : T.rules.find? (fun q => q.2 <+: c :: s) = none := by
    refine List.find?_eq_none.2 ?_
    intro q hq
    rcases T.entity q hq with ⟨body, hbody, -⟩
    rcases T.special_mark with ⟨p, hp, hmark⟩
    have hc : T.mark ≠ c := hmark ▸ hnone p hp
    simp [hbody, List.cons_prefix_cons, hc]
  simp only [unescape, unescapeFrom, hfind]

theorem unescape_escape (T : EscapeTable α) (s : List α) : T.unescape (T.escape s) = s := by
  induction s with
  | nil =>
      rfl
  | cons c s ih =>
      have hparts : T.escape (c :: s) = entityOf T.rules c ++ T.escape s := rfl
      rcases T.entityOf_cases c with ⟨p, hp, rfl, hentity⟩ | ⟨hnone, hentity⟩
      · rw [hparts, hentity, unescape_entity_append hp, ih]
      · rw [hparts, hentity, List.singleton_append, unescape_cons_of_plain hnone, ih]

end EscapeTable

end Lib
end Squiddish
