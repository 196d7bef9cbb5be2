import Mathlib.Logic.Relation
import Squiddish.Proxy.Directives

/-!
# Loops — a request that comes back is recognised

Every request the proxy forwards carries its entry in the `Via` header.  Other proxies on the way
append their own lines and fold lines into one; the entry stays, and all lines stay text, so
`has_via_loop` finds it.
-/

namespace Squiddish
namespace Proxy

open Lib

/-! ## Entries -/

def viaName : Str := "via".toList

/-- The pseudonym of the proxy, in any case and with any white space around it. -/
def isOwnEntry (entry : Str) : Bool :=
  eqIgnoreAsciiCase (trim entry) "1.1 squiddish".toList

/-- The text has the entry of the proxy among its comma-separated entries. -/
def HasOwn (s : Str) : Prop :=
  ∃ entry ∈ s.splitOn ',', isOwnEntry entry = true

theorem isOwnEntry_blank {a b : Str} (ha : IsBlank a) (hb : IsBlank b) (entry : Str) :
    isOwnEntry (a ++ entry ++ b) = isOwnEntry entry := by
  rw [isOwnEntry, trim_blank_append ha hb, isOwnEntry]

theorem comma_notMem_of_isBlank {b : Str} (hb : IsBlank b) : ',' ∉ b := by
  intro hmem
  exact absurd (hb ',' hmem) (by decide)

/-- White space behind a text leaves its entries. -/
theorem HasOwn.append_blank {s b : Str} (h : HasOwn s) (hb : IsBlank b) : HasOwn (s ++ b) := by
  rcases h with ⟨entry, hentry, hown⟩
  rcases splitOn_append_of_notMem (comma_notMem_of_isBlank hb) s with ⟨labels, last, hs, hsb⟩
  rw [hs] at hentry
  rcases List.mem_append.1 hentry with hmem | hlast
  · exact ⟨entry, by simp [hsb, hmem], hown⟩
  · rw [List.mem_singleton] at hlast
    subst hlast
    refine ⟨entry ++ b, by simp [hsb], ?_⟩
    have hblank := isOwnEntry_blank (a := []) (fun c hc => by cases hc) hb entry
    rw [List.nil_append] at hblank
    rw [hblank, hown]

/-- So does white space before it. -/
theorem HasOwn.prepend_blank {s b : Str} (h : HasOwn s) (hb : IsBlank b) : HasOwn (b ++ s) := by
  rcases h with ⟨entry, hentry, hown⟩
  rcases splitOn_prepend_of_notMem (comma_notMem_of_isBlank hb) s with ⟨first, labels, hs, hbs⟩
  rw [hs] at hentry
  rcases List.mem_cons.1 hentry with rfl | hmem
  · refine ⟨b ++ entry, by simp [hbs], ?_⟩
    have hblank := isOwnEntry_blank hb (b := []) (fun c hc => by cases hc) entry
    rw [List.append_nil] at hblank
    rw [hblank, hown]
  · exact ⟨entry, by simp [hbs, hmem], hown⟩

/-- Of two texts with a comma between them, each keeps its entries. -/
theorem hasOwn_join {s t : Str} : HasOwn (s ++ ',' :: t) ↔ HasOwn s ∨ HasOwn t := by
  simp [HasOwn, List.splitOn_append_cons_self, or_and_right, exists_or]

/-! ## Hops -/

/-- Optional white space. -/
def IsOws (v : HeaderValue) : Prop :=
  ∀ b ∈ v, b = 32 ∨ b = 9

/-- What another proxy does to the `Via` lines. -/
inductive ViaHop : List HeaderValue → List HeaderValue → Prop
  /-- Its own entries, as a line behind the others. -/
  | append (lines : List HeaderValue) {v : HeaderValue} :
      (HeaderValue.toStr v).isSome = true → ViaHop lines (lines ++ [v])
  /-- Two lines become one.  More lines are folded two at a time. -/
  | fold (before after : List HeaderValue) (v w : HeaderValue) {ows ows' : HeaderValue} :
      IsOws ows → IsOws ows' →
      ViaHop (before ++ v :: w :: after) (before ++ (v ++ ows ++ 44 :: (ows' ++ w)) :: after)

/-- A hop does to the other headers whatever it likes. -/
def HeaderHop (h h' : HeaderMap) : Prop :=
  ViaHop (h.getAll viaName) (h'.getAll viaName)

/-- All lines are text, and one has the entry of the proxy. -/
structure Marked (lines : List HeaderValue) : Prop where
  text : ∀ v ∈ lines, (HeaderValue.toStr v).isSome = true
  own : ∃ v ∈ lines, HasOwn v.chars

/-! ## What a hop keeps -/

theorem isSome_toStr_iff {v : HeaderValue} :
    (HeaderValue.toStr v).isSome = true ↔
      ∀ b ∈ v, ((32 ≤ b && b < 127) || b == 9) = true := by
  have htext : HeaderValue.toStr v =
      if v.all (fun b => (32 ≤ b && b < 127) || b == 9) = true then some v.chars else none := rfl
  rw [htext, ← List.all_eq_true]
  by_cases hall : v.all (fun b => (32 ≤ b && b < 127) || b == 9) = true
  · rw [if_pos hall]
    simp [hall]
  · rw [if_neg hall]
    simp [hall]

theorem IsOws.isBlank {v : HeaderValue} (h : IsOws v) : IsBlank v.chars := by
  intro c hc
  rcases List.mem_map.1 hc with ⟨b, hb, rfl⟩
  rcases h b hb with rfl | rfl <;> decide

theorem IsOws.isSome_toStr {v : HeaderValue} (h : IsOws v) :
    (HeaderValue.toStr v).isSome = true := by
  rw [isSome_toStr_iff]
  intro b hb
  rcases h b hb with rfl | rfl <;> decide

/-- Lines that are text are folded into text. -/
theorem isSome_toStr_fold {v w ows ows' : HeaderValue}
    (hv : (HeaderValue.toStr v).isSome = true) (hw : (HeaderValue.toStr w).isSome = true)
    (hows : IsOws ows) (hows' : IsOws ows') :
    (HeaderValue.toStr (v ++ ows ++ 44 :: (ows' ++ w))).isSome = true := by
  have ho := isSome_toStr_iff.1 hows.isSome_toStr
  have ho' := isSome_toStr_iff.1 hows'.isSome_toStr
  rw [isSome_toStr_iff] at hv hw ⊢
  intro b hb
  simp only [List.mem_append, List.mem_cons] at hb
  rcases hb with (hb | hb) | rfl | hb | hb
  · exact hv b hb
  · exact ho b hb
  · decide
  · exact ho' b hb
  · exact hw b hb

theorem chars_fold (v w ows ows' : HeaderValue) :
    HeaderValue.chars (v ++ ows ++ 44 :: (ows' ++ w)) =
      (v.chars ++ ows.chars) ++ ',' :: (ows'.chars ++ w.chars) := by
  simp [HeaderValue.chars]

theorem hasOwn_fold {v w ows ows' : HeaderValue} (hows : IsOws ows) (hows' : IsOws ows')
    (h : HasOwn v.chars ∨ HasOwn w.chars) :
    HasOwn (HeaderValue.chars (v ++ ows ++ 44 :: (ows' ++ w))) := by
  rw [chars_fold, hasOwn_join]
  rcases h with hv | hw
  · exact Or.inl (hv.append_blank hows.isBlank)
  · exact Or.inr (hw.prepend_blank hows'.isBlank)

/-- Every hop keeps the entry and leaves text. -/
theorem ViaHop.marked {lines lines' : List HeaderValue} (hop : ViaHop lines lines')
    (h : Marked lines) : Marked lines' := by
  rcases h.own with ⟨u, hu, hown⟩
  cases hop with
  | append lines hv =>
      refine ⟨fun w hw => ?_, u, List.mem_append_left _ hu, hown⟩
      rcases List.mem_append.1 hw with hw | hw
      · exact h.text w hw
      · rw [List.mem_singleton.1 hw]
        exact hv
  | fold before after v w hows hows' =>
      have hv := h.text v (by simp)
      have hw := h.text w (by simp)
      constructor
      · intro x hx
        simp only [List.mem_append, List.mem_cons] at hx
        rcases hx with hx | rfl | hx
        · exact h.text x (by simp [hx])
        · exact isSome_toStr_fold hv hw hows hows'
        · exact h.text x (by simp [hx])
      -- the entry stands in one of the two lines that are folded, or in another
      · simp only [List.mem_append, List.mem_cons] at hu
        rcases hu with hu | rfl | rfl | hu
        · exact ⟨u, by simp [hu], hown⟩
        · exact ⟨_, List.mem_append_right _ List.mem_cons_self,
            hasOwn_fold hows hows' (Or.inl hown)⟩
        · exact ⟨_, List.mem_append_right _ List.mem_cons_self,
            hasOwn_fold hows hows' (Or.inr hown)⟩
        · exact ⟨u, by simp [hu], hown⟩

theorem marked_of_hops {h h' : HeaderMap} (hops : Relation.ReflTransGen HeaderHop h h')
    (hmarked : Marked (h.getAll viaName)) : Marked (h'.getAll viaName) := by
  induction hops with
  | refl =>
      exact hmarked
  | tail _ hop ih =>
      exact hop.marked ih

/-! ## What is recognised -/

/-- The entries `has_via_loop` looks at are those of the lines that are text. -/
theorem hasViaLoop_iff {headers : HeaderMap} :
    hasViaLoop headers = true ↔ ∃ d ∈ directives headers viaName,
      d.readable = true ∧ isOwnEntry d.piece = true := by
  rw [hasViaLoop, List.any_eq_true]
  constructor
  · rintro ⟨entry, hentry, hown⟩
    rcases mem_items_iff.1 hentry with ⟨d, hd, hread, rfl⟩
    exact ⟨d, hd, hread, hown⟩
  · rintro ⟨d, hd, hread, hown⟩
    exact ⟨d.piece, mem_items_iff.2 ⟨d, hd, hread, rfl⟩, hown⟩

theorem Marked.hasViaLoop {headers : HeaderMap} (h : Marked (headers.getAll viaName)) :
    hasViaLoop headers = true := by
  rcases h.own with ⟨v, hv, entry, hentry, hown⟩
  have hd : { line := v, piece := entry : Directive } ∈ directives headers viaName :=
    List.mem_flatMap.2 ⟨v, hv, List.mem_map.2 ⟨entry, hentry, rfl⟩⟩
  exact hasViaLoop_iff.2 ⟨_, hd, h.text v hv, hown⟩

/-- The request that is sent carries the entry, whatever the filter has made of the other lines. -/
theorem marked_newReq {req : Request}
    (htext : ∀ v ∈ req.headers.getAll viaName, (HeaderValue.toStr v).isSome = true) :
    Marked ((newReq req).headers.getAll viaName) := by
  have hlines : (newReq req).headers.getAll viaName =
      (filterHeaders req.headers).getAll viaName ++ [viaValue] := by
    rw [newReq, viaName, getAll_append, if_pos rfl]
  have hown : HasOwn viaValue.chars := by
    refine ⟨"1.1 squiddish".toList, ?_, ?_⟩ <;> decide
  have hvia : (HeaderValue.toStr viaValue).isSome = true := by
    decide
  rw [hlines]
  refine ⟨fun v hv => ?_, viaValue, by simp, hown⟩
  rcases List.mem_append.1 hv with hv | hv
  · rw [getAll_filterHeaders] at hv
    split at hv
    · cases hv
    · exact htext v hv
  · rw [List.mem_singleton.1 hv]
    exact hvia

/-- A request that was forwarded is recognised after any hops, and no other is. -/
theorem viaLoop_recognised (req : Request)
    (htext : ∀ v ∈ req.headers.getAll viaName, (HeaderValue.toStr v).isSome = true) :
    (∀ h, Relation.ReflTransGen HeaderHop (newReq req).headers h → hasViaLoop h = true) ∧
      ∀ headers : HeaderMap,
        (∀ d ∈ directives headers viaName, isOwnEntry d.piece = false) →
        hasViaLoop headers = false := by
  refine ⟨fun h hops => (marked_of_hops hops (marked_newReq htext)).hasViaLoop, ?_⟩
  intro headers hnone
  rw [Bool.eq_false_iff]
  intro hloop
  rcases hasViaLoop_iff.1 hloop with ⟨d, hd, -, hown⟩
  rw [hnone d hd] at hown
  cases hown

/-- A request that has come through one proxy and wants its `Via` header dropped. -/
def viaRequest : Request :=
  { method := "GET".toList
    uri :=
      { scheme := some "http".toList
        authority := some "example.com".toList
        text := "http://example.com/".toList }
    headers :=
      [(viaName, .ofText "1.0 fred".toList), ("connection".toList, .ofText "Via".toList)] }

theorem viaLoop_recognised_dropped :
    (∀ h, Relation.ReflTransGen HeaderHop (newReq viaRequest).headers h → hasViaLoop h = true) ∧
      ∀ headers : HeaderMap,
        (∀ d ∈ directives headers viaName, isOwnEntry d.piece = false) →
        hasViaLoop headers = false :=
  viaLoop_recognised viaRequest (forall_mem_of_all (by decide))

end Proxy
end Squiddish
