import Squiddish.Lib.Text
import Squiddish.Lib.Trim

/-!
# Labels — texts made of separated labels

A text is cut at every occurrence of a separator.  `splitOn_suffix_iff` says when the labels of one
text are the last labels of another; the byte lemmas say that a tail cut off by its length is the
tail one expects.
-/

namespace Squiddish
namespace Lib

/-! ## Cutting at every separator -/

theorem intercalate_cons_of_ne_nil {α : Type*} (c : α) (x : List α) {xs : List (List α)}
    (h : xs ≠ []) : [c].intercalate (x :: xs) = x ++ c :: [c].intercalate xs := by
  cases xs with
  | nil =>
      exact absurd rfl h
  | cons y ys =>
      simp [List.intercalate]

section Split

variable {α β : Type*} [DecidableEq α] [DecidableEq β]

/-- The labels of a text determine it. -/
theorem splitOn_injective (c : α) {s t : List α} (h : s.splitOn c = t.splitOn c) : s = t := by
  calc
    s = [c].intercalate (s.splitOn c) := (List.intercalate_splitOn c).symm
    _ = [c].intercalate (t.splitOn c) := by rw [h]
    _ = t := List.intercalate_splitOn c

/-- Labels put before the labels of a text stand before it and a separator. -/
theorem intercalate_append_splitOn (c : α) (x : List α) (xs : List (List α)) (s : List α) :
    [c].intercalate (x :: xs ++ s.splitOn c) = [c].intercalate (x :: xs) ++ c :: s := by
  induction xs generalizing x with
  | nil =>
      have hne : s.splitOn c ≠ [] := List.splitOn_ne_nil c s
      calc
        [c].intercalate (x :: s.splitOn c) = x ++ c :: [c].intercalate (s.splitOn c) :=
              intercalate_cons_of_ne_nil c x hne
        _ = x ++ c :: s := by rw [List.intercalate_splitOn]
        _ = [c].intercalate [x] ++ c :: s := by simp [List.intercalate]
  | cons y ys ih =>
      have hne : y :: ys ++ s.splitOn c ≠ [] := by
        simp
      calc
        [c].intercalate (x :: (y :: ys ++ s.splitOn c)) =
            x ++ c :: [c].intercalate (y :: ys ++ s.splitOn c) :=
              intercalate_cons_of_ne_nil c x hne
        _ = x ++ c :: ([c].intercalate (y :: ys) ++ c :: s) := by rw [ih y]
        _ = [c].intercalate (x :: y :: ys) ++ c :: s := by
              rw [intercalate_cons_of_ne_nil c x (List.cons_ne_nil y ys)]
              simp

/-- The labels of `p` are the last labels of `s` when `s` is `p` or ends with a separator
and `p`. -/
theorem splitOn_suffix_iff {c : α} {p s : List α} :
    p.splitOn c <:+ s.splitOn c ↔ s = p ∨ ∃ t, s = t ++ c :: p := by
  constructor
  · rintro ⟨labels, hlabels⟩
    cases labels with
    | nil =>
        exact Or.inl (splitOn_injective c (by simpa using hlabels.symm))
    | cons x xs =>
        refine Or.inr ⟨[c].intercalate (x :: xs), ?_⟩
        calc
          s = [c].intercalate (s.splitOn c) := (List.intercalate_splitOn c).symm
          _ = [c].intercalate (x :: xs ++ p.splitOn c) := by rw [hlabels]
          _ = [c].intercalate (x :: xs) ++ c :: p := intercalate_append_splitOn c x xs p
  · rintro (rfl | ⟨t, rfl⟩)
    · exact List.suffix_rfl
    · rw [List.splitOn_append_cons_self]
      exact List.suffix_append _ _

/-- A map that makes no separator and loses none maps the labels. -/
theorem splitOn_map {f : α → β} {c : α} {d : β} (hf : ∀ x, f x = d ↔ x = c) (s : List α) :
    (s.map f).splitOn d = (s.splitOn c).map (List.map f) := by
  induction s with
  | nil =>
      rfl
  | cons x xs ih =>
      rw [List.map_cons, List.splitOn_cons_eq_if_modifyHead, List.splitOn_cons_eq_if_modifyHead, ih]
      by_cases hx : x = c
      · simp [hx, (hf c).2 rfl]
      · have hfx : f x ≠ d := fun h => hx ((hf x).1 h)
        cases hs : xs.splitOn c with
        | nil =>
            exact absurd hs (List.splitOn_ne_nil c xs)
        | cons y ys =>
            simp [hx, hfx]

/-- What is put behind a text without a separator goes to its last label. -/
theorem splitOn_append_of_notMem {c : α} {b : List α} (hb : c ∉ b) (s : List α) :
    ∃ labels last, s.splitOn c = labels ++ [last] ∧ (s ++ b).splitOn c = labels ++ [last ++ b] := by
  induction s with
  | nil =>
      exact ⟨[], [], rfl, by simpa using List.splitOn_eq_singleton hb⟩
  | cons x s ih =>
      obtain ⟨labels, last, hs, hsb⟩ := ih
      by_cases hx : x = c
      · refine ⟨[] :: labels, last, ?_, ?_⟩
        · rw [List.splitOn_cons_eq_if_modifyHead, if_pos (by simpa using hx), hs, List.cons_append]
        · rw [List.cons_append, List.splitOn_cons_eq_if_modifyHead, if_pos (by simpa using hx), hsb,
            List.cons_append]
      · have hne : ¬ (x == c) = true := by
          simpa using hx
        cases labels with
        | nil =>
            refine ⟨[], x :: last, ?_, ?_⟩
            · rw [List.splitOn_cons_eq_if_modifyHead, if_neg hne, hs]
              rfl
            · rw [List.cons_append, List.splitOn_cons_eq_if_modifyHead, if_neg hne, hsb]
              rfl
        | cons y labels =>
            refine ⟨(x :: y) :: labels, last, ?_, ?_⟩
            · rw [List.splitOn_cons_eq_if_modifyHead, if_neg hne, hs]
              rfl
            · rw [List.cons_append, List.splitOn_cons_eq_if_modifyHead, if_neg hne, hsb]
              rfl

/-- What is put before a text without a separator goes to its first label. -/
theorem splitOn_prepend_of_notMem {c : α} {b : List α} (hb : c ∉ b) (s : List α) :
    ∃ first labels, s.splitOn c = first :: labels ∧
      (b ++ s).splitOn c = (b ++ first) :: labels := by
  induction b with
  | nil =>
      cases hs : s.splitOn c with
      | nil =>
          exact absurd hs (List.splitOn_ne_nil c s)
      | cons first labels =>
          exact ⟨first, labels, rfl, by simpa using hs⟩
  | cons x b ih =>
      have hx : ¬ (x == c) = true := by
        have hne : x ≠ c := fun heq => hb (heq ▸ List.mem_cons_self)
        simpa using hne
      obtain ⟨first, labels, hs, hbs⟩ := ih (fun h => hb (List.mem_cons_of_mem _ h))
      refine ⟨first, labels, hs, ?_⟩
      rw [List.cons_append, List.splitOn_cons_eq_if_modifyHead, if_neg hx, hbs]
      rfl

end Split

/-! ## Bytes of a text -/

@[simp] theorem utf8Len_append (s t : Str) : utf8Len (s ++ t) = utf8Len s + utf8Len t := by
  simp [utf8Len]

@[simp] theorem utf8Len_cons (c : Char) (s : Str) : utf8Len (c :: s) = c.utf8Size + utf8Len s := by
  simp [utf8Len]

theorem length_le_utf8Len (s : Str) : s.length ≤ utf8Len s := by
  induction s with
  | nil =>
      exact Nat.zero_le _
  | cons c s ih =>
      calc
        (c :: s).length = 1 + s.length := by simp [Nat.add_comm]
        _ ≤ c.utf8Size + utf8Len s := Nat.add_le_add (Char.utf8Size_pos c) ih
        _ = utf8Len (c :: s) := (utf8Len_cons c s).symm

/-- Tails of one text with equally many bytes are the same. -/
theorem append_inj_of_utf8Len {a a' b b' : Str} (h : a ++ b = a' ++ b')
    (hlen : utf8Len b = utf8Len b') : a = a' ∧ b = b' := by
  have hnil : ∀ x y : Str, utf8Len (x ++ y) = utf8Len y → x = [] := by
    intro x y hxy
    have hzero : utf8Len x = 0 := by
      rw [utf8Len_append] at hxy
      exact Nat.add_eq_right.1 hxy
    exact List.length_eq_zero_iff.1 (Nat.le_zero.1 (hzero ▸ length_le_utf8Len x))
  -- two ways to cut a text: one tail ends with the other
  rcases List.append_eq_append_iff.1 h with ⟨x, ha, hb⟩ | ⟨x, ha, hb⟩
  · have hx : x = [] := hnil x b' (hb ▸ hlen)
    subst hx
    exact ⟨by simpa using ha.symm, by simpa using hb⟩
  · have hx : x = [] := hnil x b (hb ▸ hlen.symm)
    subst hx
    exact ⟨by simpa using ha, by simpa using hb.symm⟩

theorem dropBytes_append (a b : Str) : dropBytes (utf8Len a) (a ++ b) = some b := by
  induction a with
  | nil =>
      simp [utf8Len, dropBytes]
  | cons c a ih =>
      obtain ⟨n, hn⟩ := Nat.exists_eq_add_one_of_ne_zero
        (Nat.pos_iff_ne_zero.1 (Nat.add_pos_left (Char.utf8Size_pos c) (utf8Len a)))
      have hle : c.utf8Size ≤ n + 1 := hn ▸ Nat.le_add_right _ _
      have hrest : n + 1 - c.utf8Size = utf8Len a := by
        rw [← hn, Nat.add_sub_cancel_left]
      rw [utf8Len_cons, List.cons_append, hn]
      simp only [dropBytes, if_pos hle, hrest, ih]

theorem dropBytes_eq_some {n : Nat} {s t : Str} (h : dropBytes n s = some t) :
    ∃ a, s = a ++ t ∧ utf8Len a = n := by
  induction s generalizing n with
  | nil =>
      cases n with
      | zero =>
          have ht : [] = t := by
            simpa [dropBytes] using h
          exact ⟨[], by simp [ht], rfl⟩
      | succ n =>
          simp [dropBytes] at h
  | cons c s ih =>
      cases n with
      | zero =>
          have ht : c :: s = t := by
            simpa [dropBytes] using h
          exact ⟨[], by simp [ht], rfl⟩
      | succ n =>
          by_cases hle : c.utf8Size ≤ n + 1
          · simp only [dropBytes, if_pos hle] at h
            obtain ⟨a, rfl, ha⟩ := ih h
            exact ⟨c :: a, rfl, by rw [utf8Len_cons, ha, Nat.add_sub_cancel' hle]⟩
          · simp only [dropBytes, if_neg hle, reduceCtorEq] at h

/-! ## ASCII text -/

def IsAscii (s : Str) : Prop :=
  ∀ c ∈ s, c.toNat < 128

theorem utf8Len_of_isAscii {s : Str} (h : IsAscii s) : utf8Len s = s.length := by
  induction s with
  | nil =>
      rfl
  | cons c s ih =>
      have hc : c.utf8Size = 1 := by
        rw [Char.utf8Size_eq_one_iff, UInt32.le_iff_toNat_le]
        exact Nat.le_of_lt_succ (h c List.mem_cons_self)
      rw [utf8Len_cons, hc, ih (fun d hd => h d (List.mem_cons_of_mem _ hd)), List.length_cons,
        Nat.add_comm]

/-- An ASCII text can be cut anywhere. -/
theorem dropBytes_of_isAscii {s : Str} (h : IsAscii s) {n : Nat} (hn : n ≤ utf8Len s) :
    dropBytes n s = some (s.drop n) := by
  have htake : utf8Len (s.take n) = n := by
    rw [utf8Len_of_isAscii (fun c hc => h c (List.mem_of_mem_take hc)), List.length_take]
    exact Nat.min_eq_left (utf8Len_of_isAscii h ▸ hn)
  calc
    dropBytes n s = dropBytes (utf8Len (s.take n)) (s.take n ++ s.drop n) := by
          rw [htake, List.take_append_drop]
    _ = some (s.drop n) := dropBytes_append _ _

/-! ## ASCII case -/

/-- `Char.toLower` by the numbers of the characters. -/
theorem toNat_toLower (c : Char) :
    c.toLower.toNat = if 65 ≤ c.toNat ∧ c.toNat ≤ 90 then c.toNat + 32 else c.toNat := by
  have hiff : (c.val ≥ 'A'.val ∧ c.val ≤ 'Z'.val) ↔ 65 ≤ c.toNat ∧ c.toNat ≤ 90 := by
    simp only [ge_iff_le, UInt32.le_iff_toNat_le, Char.toNat_val]
    exact Iff.rfl
  unfold Char.toLower
  by_cases hc : 65 ≤ c.toNat ∧ c.toNat ≤ 90
  · rw [dif_pos (hiff.2 hc), if_pos hc]
    change (c.val + 32).toNat = c.toNat + 32
    rw [UInt32.toNat_add, Char.toNat_val]
    have hlt : c.toNat + 32 < 2 ^ 32 := by
      omega
    exact Nat.mod_eq_of_lt hlt
  · rw [dif_neg (fun h => hc (hiff.1 h)), if_neg hc]

/-- `Char.toUpper` by the numbers of the characters. -/
theorem toNat_toUpper (c : Char) :
    c.toUpper.toNat = if 97 ≤ c.toNat ∧ c.toNat ≤ 122 then c.toNat - 32 else c.toNat := by
  have hiff : (c.val ≥ 'a'.val ∧ c.val ≤ 'z'.val) ↔ 97 ≤ c.toNat ∧ c.toNat ≤ 122 := by
    simp only [ge_iff_le, UInt32.le_iff_toNat_le, Char.toNat_val]
    exact Iff.rfl
  unfold Char.toUpper
  by_cases hc : 97 ≤ c.toNat ∧ c.toNat ≤ 122
  · rw [dif_pos (hiff.2 hc), if_pos hc]
    change (c.val + ('A'.val - 'a'.val)).toNat = c.toNat - 32
    have hdiff : ('A'.val - 'a'.val).toNat = 2 ^ 32 - 32 := by
      decide
    rw [UInt32.toNat_add, Char.toNat_val, hdiff]
    omega
  · rw [dif_neg (fun h => hc (hiff.1 h)), if_neg hc]

/-- Only letters have another case. -/
theorem toLower_eq_iff {d : Char} (hd : ¬ (65 ≤ d.toNat ∧ d.toNat ≤ 90))
    (hd' : ¬ (97 ≤ d.toNat ∧ d.toNat ≤ 122)) (c : Char) : c.toLower = d ↔ c = d := by
  rw [← Char.toNat_inj, ← Char.toNat_inj, toNat_toLower]
  by_cases hc : 65 ≤ c.toNat ∧ c.toNat ≤ 90
  · rw [if_pos hc]
    omega
  · rw [if_neg hc]

theorem utf8Size_toLower (c : Char) : c.toLower.utf8Size = c.utf8Size := by
  have hone : ∀ d : Char, d.utf8Size = 1 ↔ d.toNat ≤ 127 := by
    intro d
    rw [Char.utf8Size_eq_one_iff, UInt32.le_iff_toNat_le]
    exact Iff.rfl
  by_cases hc : 65 ≤ c.toNat ∧ c.toNat ≤ 90
  -- a capital letter and its small letter are single bytes
  · have hlower : c.toLower.toNat = c.toNat + 32 := by
      rw [toNat_toLower, if_pos hc]
    rw [(hone c).2 (by omega), (hone c.toLower).2 (by omega)]
  · have hsame : c.toLower = c := by
      rw [← Char.toNat_inj, toNat_toLower, if_neg hc]
    rw [hsame]

@[simp] theorem utf8Len_toAsciiLowercase (s : Str) : utf8Len (toAsciiLowercase s) = utf8Len s := by
  simp [utf8Len, toAsciiLowercase, Function.comp_def, utf8Size_toLower]

theorem isWhitespace_iff {c : Char} :
    c.isWhitespace = true ↔ c = ' ' ∨ c = '\t' ∨ c = '\r' ∨ c = '\n' := by
  simp [Char.isWhitespace, or_assoc]

theorem isWhitespace_toLower (c : Char) : c.toLower.isWhitespace = c.isWhitespace := by
  rw [Bool.eq_iff_iff, isWhitespace_iff, isWhitespace_iff, toLower_eq_iff (by decide) (by decide),
    toLower_eq_iff (by decide) (by decide), toLower_eq_iff (by decide) (by decide),
    toLower_eq_iff (by decide) (by decide)]

theorem eqIgnoreAsciiCase_iff {s t : Str} :
    eqIgnoreAsciiCase s t = true ↔ toAsciiLowercase s = toAsciiLowercase t := by
  simp [eqIgnoreAsciiCase]

/-! ## White space -/

def IsBlank (s : Str) : Prop :=
  ∀ c ∈ s, c.isWhitespace = true

/-- A text is white space, what is left when it is trimmed, and white space. -/
theorem exists_eq_append_trim (s : Str) : ∃ a b, s = a ++ trim s ++ b ∧ IsBlank a ∧ IsBlank b :=
  exists_eq_append_trimBy s

/-- White space around a text makes no difference when it is trimmed. -/
theorem trim_blank_append {a b : Str} (ha : IsBlank a) (hb : IsBlank b) (s : Str) :
    trim (a ++ s ++ b) = trim s :=
  trimBy_append ha hb s

/-- White space around a word is all that is trimmed. -/
theorem trim_append {a w b : Str} (ha : IsBlank a) (hb : IsBlank b)
    (hw : ∀ c ∈ w, c.isWhitespace = false) : trim (a ++ w ++ b) = w :=
  (trim_blank_append ha hb w).trans (trimBy_eq_self hw)

end Lib
end Squiddish
