import Squiddish.Lib.Labels
import Squiddish.Proxy.Forward

/-!
# Directives — the directives of a header as they were received

The functions of the proxy look at the lines of a header that are text.  A directive is there
whether or not the bytes around it are: here it is read off the bytes of its line.
-/

namespace Squiddish

open Lib

/-- The characters of a header value, byte by byte. -/
def HeaderValue.chars (v : HeaderValue) : Str :=
  v.map (fun b => Char.ofNat b.toNat)

theorem HeaderValue.eq_chars_of_toStr {v : HeaderValue} {s : Str} (h : v.toStr = some s) :
    s = v.chars :=
  (HeaderValue.toStr_eq_some h).2

namespace Proxy

/-! ## Directives -/

/-- A comma-separated piece and the line it stands in. -/
structure Directive where
  line : HeaderValue
  piece : Str
  deriving DecidableEq, Repr

namespace Directive

/-- What stands before the first `=`, without regard to case and white space. -/
def name (d : Directive) : Str :=
  toAsciiLowercase (trim (beforeFirst '=' d.piece))

/-- The line is one that `to_str` gives. -/
def readable (d : Directive) : Bool :=
  (HeaderValue.toStr d.line).isSome

theorem name_of_notMem {d : Directive} (h : '=' ∉ d.piece) :
    d.name = toAsciiLowercase (trim d.piece) := by
  rw [name, beforeFirst_of_notMem h]

end Directive

/-- The directives of one line. -/
def directivesOf (line : HeaderValue) : List Directive :=
  (line.chars.splitOn ',').map (fun piece => { line := line, piece := piece })

/-- The directives of all lines of a header. -/
def directives (headers : HeaderMap) (name : Str) : List Directive :=
  (headers.getAll name).flatMap directivesOf

theorem readable_of_mem {line : HeaderValue} {d : Directive} (h : d ∈ directivesOf line) :
    d.readable = (HeaderValue.toStr line).isSome := by
  obtain ⟨piece, -, rfl⟩ := List.mem_map.1 h
  rfl

/-- The directives of a line are read all together or not at all. -/
theorem filter_readable_directivesOf (line : HeaderValue) :
    ((directivesOf line).filter Directive.readable).map Directive.piece =
      match HeaderValue.toStr line with
      | some s => s.splitOn ','
      | none => [] := by
  cases htext : HeaderValue.toStr line with
  | none =>
      have hnone : (directivesOf line).filter Directive.readable = [] := by
        refine List.filter_eq_nil_iff.2 ?_
        intro d hd
        simp [readable_of_mem hd, htext]
      simp [hnone]
  | some s =>
      have hall : (directivesOf line).filter Directive.readable = directivesOf line := by
        refine List.filter_eq_self.2 ?_
        intro d hd
        simp [readable_of_mem hd, htext]
      rw [hall, HeaderValue.eq_chars_of_toStr htext]
      simp [directivesOf, Function.comp_def]

/-- The functions of the proxy see the directives of the readable lines. -/
theorem items_eq (headers : HeaderMap) (name : Str) :
    headers.items name =
      ((directives headers name).filter Directive.readable).map Directive.piece := by
  unfold HeaderMap.items directives
  induction headers.getAll name with
  | nil =>
      rfl
  | cons line lines ih =>
      rw [List.flatMap_cons, List.filter_append, List.map_append, ← ih,
        filter_readable_directivesOf]
      cases htext : HeaderValue.toStr line <;> simp [htext]

theorem mem_items_iff {headers : HeaderMap} {name piece : Str} :
    piece ∈ headers.items name ↔
      ∃ d ∈ directives headers name, d.readable = true ∧ d.piece = piece := by
  simp [items_eq, and_assoc]

theorem directives_filterHeaders (headers : HeaderMap) (name : Str) :
    directives (filterHeaders headers) name =
      if name ∈ droppedNames headers then [] else directives headers name := by
  unfold directives
  rw [getAll_filterHeaders]
  split <;> rfl

end Proxy
end Squiddish
