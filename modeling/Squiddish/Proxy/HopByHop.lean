import Squiddish.Proxy.Directives

/-!
# HopByHop — which headers end at one hop

RFC 7230 names eight headers that a proxy must not pass on, and lets the `Connection` header list
more.  `filter_headers` has a list of eight names and reads the `Connection` lines that are text.
-/

namespace Squiddish
namespace Proxy

open Lib

/-! ## The headers that must not be passed on -/

/-- The hop-by-hop headers of RFC 7230, section 6.1. -/
def standardHopByHop : List Str :=
  ["connection".toList, "keep-alive".toList, "proxy-authenticate".toList,
    "proxy-authorization".toList, "te".toList, "trailer".toList,
    "transfer-encoding".toList, "upgrade".toList]

/-- Some `Connection` line lists the name, whatever other bytes that line holds. -/
def Declared (headers : HeaderMap) (name : Str) : Prop :=
  ∃ d ∈ directives headers "connection".toList, toAsciiLowercase (trim d.piece) = name

/-- A `Connection` line that is text lists the name. -/
def DeclaredInText (headers : HeaderMap) (name : Str) : Prop :=
  ∃ d ∈ directives headers "connection".toList,
    d.readable = true ∧ toAsciiLowercase (trim d.piece) = name

theorem DeclaredInText.declared {headers : HeaderMap} {name : Str}
    (h : DeclaredInText headers name) : Declared headers name := by
  rcases h with ⟨d, hd, -, hname⟩
  exact ⟨d, hd, hname⟩

def Present (headers : HeaderMap) (name : Str) : Prop :=
  headers.getAll name ≠ []

/-- Of each name all lines are kept, in their order, or none, and none of those that must not be
passed on. -/
def ExactlyFiltered (headers : HeaderMap) : Prop :=
  ∀ name, (Declared headers name ∨ name ∈ standardHopByHop →
      (filterHeaders headers).getAll name = []) ∧
    (¬ (Declared headers name ∨ name ∈ standardHopByHop) →
      (filterHeaders headers).getAll name = headers.getAll name)

/-! ## What `filter_headers` drops -/

theorem mem_droppedNames_iff {headers : HeaderMap} {name : Str} :
    name ∈ droppedNames headers ↔ DeclaredInText headers name ∨ name ∈ hopByHop := by
  unfold droppedNames DeclaredInText
  rw [List.mem_append, List.mem_map]
  refine or_congr ?_ Iff.rfl
  constructor
  · rintro ⟨piece, hpiece, hname⟩
    rcases mem_items_iff.1 hpiece with ⟨d, hd, hread, rfl⟩
    exact ⟨d, hd, hread, hname⟩
  · rintro ⟨d, hd, hread, hname⟩
    exact ⟨d.piece, mem_items_iff.2 ⟨d, hd, hread, rfl⟩, hname⟩

/-- The list in the code has `trailers`, which is no hop-by-hop header. -/
theorem mem_standard_of_mem_hopByHop {name : Str} (h : name ∈ hopByHop) :
    name ∈ standardHopByHop ∨ name = "trailers".toList := by
  have hall : ∀ n ∈ hopByHop, n ∈ standardHopByHop ∨ n = "trailers".toList :=
    forall_mem_of_all (by decide)
  exact hall name h

/-- It lacks `trailer`, which is one. -/
theorem mem_hopByHop_of_mem_standard {name : Str} (h : name ∈ standardHopByHop) :
    name ∈ hopByHop ∨ name = "trailer".toList := by
  have hall : ∀ n ∈ standardHopByHop, n ∈ hopByHop ∨ n = "trailer".toList :=
    forall_mem_of_all (by decide)
  exact hall name h

/-- Only what is there makes a difference. -/
theorem exactlyFiltered_iff_dropped (headers : HeaderMap) :
    ExactlyFiltered headers ↔ ∀ name, Present headers name →
      (name ∈ droppedNames headers ↔ Declared headers name ∨ name ∈ standardHopByHop) := by
  constructor
  · intro h name hpresent
    have hfiltered := getAll_filterHeaders headers name
    by_cases hdropped : name ∈ droppedNames headers
    · rw [if_pos hdropped] at hfiltered
      refine iff_of_true hdropped (by_contra fun hkept => hpresent ?_)
      exact ((h name).2 hkept).symm.trans hfiltered
    · rw [if_neg hdropped] at hfiltered
      refine iff_of_false hdropped (fun hgone => hpresent ?_)
      exact hfiltered.symm.trans ((h name).1 hgone)
  · intro h name
    have hfiltered := getAll_filterHeaders headers name
    by_cases hpresent : Present headers name
    · have hname := h name hpresent
      exact ⟨fun hgone => by rw [hfiltered, if_pos (hname.2 hgone)],
        fun hkept => by rw [hfiltered, if_neg (fun hdropped => hkept (hname.1 hdropped))]⟩
    -- nothing is there before, and so nothing after
    · have habsent : headers.getAll name = [] := not_not.1 hpresent
      have hnone : (filterHeaders headers).getAll name = [] := by
        rw [hfiltered, habsent, ite_self]
      exact ⟨fun _ => hnone, fun _ => hnone.trans habsent.symm⟩

/-! ## Which headers are filtered exactly -/

/-- What the headers have in common with the two lists does not depend on `Trailer`, `Trailers` or
a `Connection` line that is no text. -/
structure NamesAgree (headers : HeaderMap) : Prop where
  /-- A `Trailer` header is listed in a `Connection` line that is text. -/
  trailer : Present headers "trailer".toList → DeclaredInText headers "trailer".toList
  /-- A header of the name `Trailers` is listed in some `Connection` line. -/
  trailers : Present headers "trailers".toList → Declared headers "trailers".toList
  /-- What other `Connection` lines list is on the list of the code or in a line that is text. -/
  text : ∀ name, Present headers name → Declared headers name →
    DeclaredInText headers name ∨ name ∈ hopByHop

theorem exactlyFiltered_iff (headers : HeaderMap) :
    ExactlyFiltered headers ↔ NamesAgree headers := by
  have htrailer : "trailer".toList ∉ hopByHop := by
    decide
  have htrailers : "trailers".toList ∉ standardHopByHop := by
    decide
  rw [exactlyFiltered_iff_dropped]
  constructor
  · intro h
    refine ⟨fun hpresent => ?_, fun hpresent => ?_, fun name hpresent hdeclared => ?_⟩
    · have hdropped := (h _ hpresent).2 (Or.inr (by decide))
      exact (mem_droppedNames_iff.1 hdropped).resolve_right htrailer
    · have hgone := (h _ hpresent).1 (mem_droppedNames_iff.2 (Or.inr (by decide)))
      exact hgone.resolve_right htrailers
    · exact mem_droppedNames_iff.1 ((h name hpresent).2 (Or.inl hdeclared))
  · intro h name hpresent
    rw [mem_droppedNames_iff]
    constructor
    · rintro (htext | hlist)
      · exact Or.inl htext.declared
      · rcases mem_standard_of_mem_hopByHop hlist with hstandard | rfl
        · exact Or.inr hstandard
        · exact Or.inl (h.trailers hpresent)
    · rintro (hdeclared | hstandard)
      · exact h.text name hpresent hdeclared
      · rcases mem_hopByHop_of_mem_standard hstandard with hlist | rfl
        · exact Or.inr hlist
        · exact Or.inl (h.trailer hpresent)

/-- A `Trailer` header is passed on. -/
theorem not_exactlyFiltered_trailer : ¬ ∀ headers, ExactlyFiltered headers := by
  intro h
  have hnone := (h [("trailer".toList, .ofText "expires".toList)] "trailer".toList).1
    (Or.inr (by decide))
  exact absurd hnone (by decide)

end Proxy
end Squiddish
