import Squiddish.Proxy.Directives

/-!
# Freshness — the lifetime a response states

`parse_cache_control_headers` takes the last `s-maxage` it can parse, else the last `max-age` it can
parse, else `Expires`.  A directive it cannot parse is a directive that is not there.
`lifetimeRespected_iff` says which header lists this does not hurt.
-/

namespace Squiddish
namespace Proxy

open Lib

/-! ## Directives with seconds -/

/-- The directives of `Cache-Control` with this name. -/
def named (name : Str) (headers : HeaderMap) : List Directive :=
  (directives headers "cache-control".toList).filter (fun d => d.name = name)

/-- What the loop makes of a directive. -/
def Directive.seconds (name : Str) (d : Directive) : Option Nat :=
  if d.readable then
    (stripPrefix (name ++ ['=']) (toAsciiLowercase (trim d.piece))).bind (parseUnsigned 64)
  else
    none

/-- The last directive of a name that the loop can parse. -/
def lastPlain (name : Str) (headers : HeaderMap) : Option Nat :=
  ((named name headers).filterMap (Directive.seconds name)).getLast?

/-- The text without a plus sign. -/
def withoutSign (s : Str) : Str :=
  match s with
  | '+' :: t => t
  | t => t

/-- The text between quotes, or the text itself. -/
def unquote (s : Str) : Str :=
  match s with
  | '"' :: t => if t.getLast? = some '"' then t.dropLast else s
  | _ => s

/-- The seconds an argument states: a number of any length, perhaps in quotes.  Any other text
states no life at all. -/
def statedSeconds (argument : Str) : Nat :=
  let digits := withoutSign (unquote (trim argument))
  if digits.all Char.isDigit then digitsValue digits else 0

def Directive.stated (d : Directive) : Nat :=
  match splitOnce '=' d.piece with
  | some (_, argument) => statedSeconds argument
  | none => 0

/-! ## What the loop parses -/

/-- The names of the two directives are words in lower case. -/
structure IsWord (name : Str) : Prop where
  lower : toAsciiLowercase name = name
  blank : ∀ c ∈ name, c.isWhitespace = false
  equals : '=' ∉ name

theorem isWord_sMaxage : IsWord "s-maxage".toList :=
  ⟨by decide, forall_mem_of_all (by decide), by decide⟩

theorem isWord_maxAge : IsWord "max-age".toList :=
  ⟨by decide, forall_mem_of_all (by decide), by decide⟩

theorem stripPrefix_eq_some {p s t : Str} : stripPrefix p s = some t ↔ s = p ++ t := by
  unfold stripPrefix
  constructor
  · intro h
    split at h
    · rename_i hpre
      obtain ⟨u, rfl⟩ := hpre
      simpa using h
    · cases h
  · rintro rfl
    simp

/-- A character that is written the same in both cases is what it was before it was put into lower
case. -/
theorem eq_of_toLower {c : Char} (h : c.toLower = '+' ∨ c.toLower.isDigit = true) :
    c = c.toLower := by
  refine ((toLower_eq_iff ?_ ?_ c).1 rfl) <;>
  · rcases h with hplus | hdigit
    · rw [hplus]
      decide
    · have hle : c.toLower.toNat ≤ 57 := by
        have hboth : 48 ≤ c.toLower.val ∧ c.toLower.val ≤ 57 := by
          simpa [Char.isDigit] using hdigit
        exact UInt32.le_iff_toNat_le.1 hboth.2
      omega

/-- The pieces the loop parses: white space, the name in any case, `=`, a number, white space. -/
theorem Directive.seconds_eq_some {name : Str} {d : Directive} {n : Nat}
    (h : d.seconds name = some n) :
    ∃ a x v b, d.piece = a ++ (x ++ '=' :: v) ++ b ∧ IsBlank a ∧ IsBlank b ∧
      toAsciiLowercase x = name ∧ parseUnsigned 64 v = some n := by
  unfold Directive.seconds at h
  split at h
  · obtain ⟨val, hstrip, hparse⟩ := Option.bind_eq_some_iff.1 h
    have hlower : (trim d.piece).map Char.toLower = name ++ '=' :: val := by
      simpa [toAsciiLowercase] using stripPrefix_eq_some.1 hstrip
    obtain ⟨x, r, htrim, hx, hr⟩ := List.map_eq_append_iff.1 hlower
    obtain ⟨e, v, rfl, he, hv⟩ := List.map_eq_cons_iff.1 hr
    have hequals : e = '=' := (toLower_eq_iff (by decide) (by decide) e).1 he
    -- the number has no letters, so it was written like this
    have hval : v = val := by
      calc
        v = v.map id := (List.map_id v).symm
        _ = v.map Char.toLower := by
              refine List.map_congr_left ?_
              intro c hc
              have hmem : c.toLower ∈ val := hv ▸ List.mem_map_of_mem hc
              exact eq_of_toLower (mem_of_parseUnsigned hparse hmem)
        _ = val := hv
    obtain ⟨a, b, hpiece, ha, hb⟩ := exists_eq_append_trim d.piece
    exact ⟨a, x, v, b, by rw [hpiece, htrim, hequals], ha, hb, hx, hval ▸ hparse⟩
  · cases h

theorem isWhitespace_of_mem_word {name x : Str} (hname : IsWord name)
    (hx : toAsciiLowercase x = name) : ∀ c ∈ x, c.isWhitespace = false := by
  intro c hc
  rw [← isWhitespace_toLower]
  exact hname.blank _ (hx ▸ List.mem_map_of_mem hc)

theorem equals_notMem_word {name a x : Str} (hname : IsWord name) (ha : IsBlank a)
    (hx : toAsciiLowercase x = name) : '=' ∉ a ++ x := by
  intro hmem
  rcases List.mem_append.1 hmem with hblank | hword
  · exact absurd (ha _ hblank) (by decide)
  · exact hname.equals (hx ▸ List.mem_map_of_mem (f := Char.toLower) hword)

theorem Directive.name_of_seconds {name : Str} {d : Directive} {n : Nat} (hname : IsWord name)
    (h : d.seconds name = some n) : d.name = name := by
  obtain ⟨a, x, v, b, hpiece, ha, -, hx, -⟩ := Directive.seconds_eq_some h
  have hbefore : beforeFirst '=' d.piece = a ++ x := by
    have hcut : d.piece = (a ++ x) ++ '=' :: (v ++ b) := by
      rw [hpiece]
      simp
    rw [hcut]
    exact beforeFirst_append (equals_notMem_word hname ha hx) _
  have htrim : trim (a ++ x) = x := by
    have hall := trim_append (b := []) ha (fun c hc => by cases hc)
      (isWhitespace_of_mem_word hname hx)
    simpa using hall
  rw [Directive.name, hbefore, htrim, hx]

/-- A search that keeps the last hit. -/
theorem foldl_or_eq {α β : Type*} (f : α → Option β) (xs : List α) (found : Option β) :
    xs.foldl (fun found x => (f x).or found) found = ((xs.filterMap f).getLast?).or found := by
  induction xs generalizing found with
  | nil =>
      rfl
  | cons x xs ih =>
      rw [List.foldl_cons, ih]
      cases hx : f x with
      | none =>
          simp [hx]
      | some y =>
          cases hxs : (xs.filterMap f).getLast? <;> simp [hx, hxs, List.getLast?_cons]

/-- The loop finds the last directive it can parse. -/
theorem lastSeconds_items {name : Str} (hname : IsWord name) (headers : HeaderMap) :
    lastSeconds (name ++ ['='])
        ((headers.items "cache-control".toList).map (fun d => toAsciiLowercase (trim d))) =
      lastPlain name headers := by
  have hfold : ∀ xs : List Str, lastSeconds (name ++ ['=']) xs =
      (xs.filterMap
        (fun d => (stripPrefix (name ++ ['=']) d).bind (parseUnsigned 64))).getLast? := by
    intro xs
    have hstep : lastSeconds (name ++ ['=']) xs =
        xs.foldl (fun found d =>
          ((stripPrefix (name ++ ['=']) d).bind (parseUnsigned 64)).or found) none := by
      refine List.foldl_ext _ _ _ ?_
      intro found d _
      cases stripPrefix (name ++ ['=']) d <;> rfl
    rw [hstep, foldl_or_eq, Option.or_none]
  have hnamed : (named name headers).filterMap (Directive.seconds name) =
      (directives headers "cache-control".toList).filterMap (Directive.seconds name) := by
    rw [named, List.filterMap_filter]
    refine List.filterMap_congr ?_
    intro d _
    cases hseconds : d.seconds name with
    | none =>
        simp
    | some n =>
        simp [Directive.name_of_seconds hname hseconds]
  rw [hfold, lastPlain, hnamed, items_eq, List.filterMap_map, List.filterMap_map,
    List.filterMap_filter]
  rfl

section Lifetime

variable {parseHttpDate : Str → Option Nat} {now : Nat} {headers : HeaderMap}

/-- What is left when `Cache-Control` has given no lifetime. -/
def expiresTtl (parseHttpDate : Str → Option Nat) (now : Nat) (headers : HeaderMap) : Option Nat :=
  match headers.get "expires".toList with
  | none => none
  | some expires =>
      match (HeaderValue.toStr expires).bind parseHttpDate with
      | some expiresTime => some ((Cache.elapsedSecs now expiresTime).getD 0)
      | none => some 0

/-- The three sources in the order in which they are tried. -/
theorem parseCacheControlHeaders_eq :
    parseCacheControlHeaders parseHttpDate now headers =
      ((lastPlain "s-maxage".toList headers).or (lastPlain "max-age".toList headers)).or
        (expiresTtl parseHttpDate now headers) := by
  have hs := lastSeconds_items isWord_sMaxage headers
  have hm := lastSeconds_items isWord_maxAge headers
  have hsWord : "s-maxage".toList ++ ['='] = "s-maxage=".toList := by
    decide
  have hmWord : "max-age".toList ++ ['='] = "max-age=".toList := by
    decide
  rw [hsWord] at hs
  rw [hmWord] at hm
  simp only [parseCacheControlHeaders, expiresTtl, hs, hm]
  cases lastPlain "s-maxage".toList headers with
  | some ttl =>
      rfl
  | none =>
      cases lastPlain "max-age".toList headers with
      | some ttl =>
          rfl
      | none =>
          cases headers.get "expires".toList with
          | none =>
              rfl
          | some expires =>
              cases (HeaderValue.toStr expires).bind parseHttpDate <;> rfl

end Lifetime

/-! ## Which lines decide -/

/-- The `Cache-Control` lines that have a directive of this name. -/
def naming (name : Str) (headers : HeaderMap) : List HeaderValue :=
  (headers.getAll "cache-control".toList).filter
    (fun line => (directivesOf line).any (fun d => d.name = name))

/-- The directive that has to decide: the last `s-maxage`, or the last `max-age` when there is no
`s-maxage`. -/
def deciding (headers : HeaderMap) : Option Directive :=
  (named "s-maxage".toList headers).getLast?.or (named "max-age".toList headers).getLast?

/-- No directive is taken for one that is not there: the lifetime follows from the lines of the
first source that is present, whatever the other lines say, and is no longer than the deciding
directive states. -/
structure LifetimeRespected (parseHttpDate : Str → Option Nat) (now : Nat) (headers : HeaderMap) :
    Prop where
  sMaxage : named "s-maxage".toList headers ≠ [] → ∀ headers',
    naming "s-maxage".toList headers' = naming "s-maxage".toList headers →
    parseCacheControlHeaders parseHttpDate now headers' =
      parseCacheControlHeaders parseHttpDate now headers
  maxAge : named "s-maxage".toList headers = [] → named "max-age".toList headers ≠ [] →
    ∀ headers', named "s-maxage".toList headers' = [] →
    naming "max-age".toList headers' = naming "max-age".toList headers →
    parseCacheControlHeaders parseHttpDate now headers' =
      parseCacheControlHeaders parseHttpDate now headers
  expires : named "s-maxage".toList headers = [] → named "max-age".toList headers = [] →
    ∀ headers', named "s-maxage".toList headers' = [] → named "max-age".toList headers' = [] →
    headers'.getAll "expires".toList = headers.getAll "expires".toList →
    parseCacheControlHeaders parseHttpDate now headers' =
      parseCacheControlHeaders parseHttpDate now headers
  absent : parseCacheControlHeaders parseHttpDate now headers = none →
    named "s-maxage".toList headers = [] ∧ named "max-age".toList headers = [] ∧
      headers.getAll "expires".toList = []
  bounded : ∀ ttl, parseCacheControlHeaders parseHttpDate now headers = some ttl →
    ∀ d ∈ deciding headers, ttl ≤ d.stated

/-- Some directive with the name of the deciding one is plain, and the last plain one states no
more than the deciding one. -/
def DecidedPlainly (headers : HeaderMap) : Prop :=
  ∀ d ∈ deciding headers, ∃ n, lastPlain d.name headers = some n ∧ n ≤ d.stated

theorem named_eq_flatMap_naming (name : Str) (headers : HeaderMap) :
    named name headers =
      (naming name headers).flatMap (fun line => (directivesOf line).filter (·.name = name)) := by
  unfold named naming directives
  induction headers.getAll "cache-control".toList with
  | nil =>
      rfl
  | cons line lines ih =>
      rw [List.flatMap_cons, List.filter_append, ih, List.filter_cons]
      cases hany : (directivesOf line).any (fun d => d.name = name) with
      | true =>
          simp
      | false =>
          have hnone : (directivesOf line).filter (fun d => d.name = name) = [] := by
            refine List.filter_eq_nil_iff.2 ?_
            exact fun d hd => by simpa using List.any_eq_false.1 hany d hd
          simp [hnone]

theorem named_of_naming {name : Str} {headers headers' : HeaderMap}
    (h : naming name headers' = naming name headers) :
    named name headers' = named name headers := by
  rw [named_eq_flatMap_naming, named_eq_flatMap_naming, h]

theorem lastPlain_of_named {name : Str} {headers headers' : HeaderMap}
    (h : named name headers' = named name headers) :
    lastPlain name headers' = lastPlain name headers := by
  rw [lastPlain, lastPlain, h]

theorem lastPlain_of_nil {name : Str} {headers : HeaderMap} (h : named name headers = []) :
    lastPlain name headers = none := by
  simp [lastPlain, h]

theorem name_of_mem_named {name : Str} {headers : HeaderMap} {d : Directive}
    (h : d ∈ named name headers) : d.name = name := by
  simpa using (List.mem_filter.1 h).2

theorem deciding_of_sMaxage {headers : HeaderMap} (h : named "s-maxage".toList headers ≠ []) :
    ∃ d, deciding headers = some d ∧ d.name = "s-maxage".toList := by
  refine ⟨(named "s-maxage".toList headers).getLast h, ?_, ?_⟩
  · rw [deciding, List.getLast?_eq_getLast_of_ne_nil h, Option.some_or]
  · exact name_of_mem_named (List.getLast_mem h)

theorem deciding_of_maxAge {headers : HeaderMap} (hs : named "s-maxage".toList headers = [])
    (h : named "max-age".toList headers ≠ []) :
    ∃ d, deciding headers = some d ∧ d.name = "max-age".toList := by
  refine ⟨(named "max-age".toList headers).getLast h, ?_, ?_⟩
  · rw [deciding, hs, List.getLast?_eq_getLast_of_ne_nil h, List.getLast?_nil, Option.none_or]
  · exact name_of_mem_named (List.getLast_mem h)

/-- What decides is an `s-maxage`, or a `max-age` when there is no `s-maxage`. -/
theorem deciding_cases {headers : HeaderMap} {d : Directive} (hd : d ∈ deciding headers) :
    (named "s-maxage".toList headers ≠ [] ∧ d.name = "s-maxage".toList) ∨
      (named "s-maxage".toList headers = [] ∧ named "max-age".toList headers ≠ [] ∧
        d.name = "max-age".toList) := by
  unfold deciding at hd
  by_cases hs : named "s-maxage".toList headers = []
  · rw [hs, List.getLast?_nil, Option.none_or] at hd
    have hmem := List.mem_of_getLast? hd
    exact Or.inr ⟨hs, List.ne_nil_of_mem hmem, name_of_mem_named hmem⟩
  · rw [List.getLast?_eq_getLast_of_ne_nil hs, Option.some_or] at hd
    exact Or.inl ⟨hs, name_of_mem_named (List.mem_of_getLast?
      ((List.getLast?_eq_getLast_of_ne_nil hs).trans hd))⟩

theorem deciding_eq_none {headers : HeaderMap} (h : deciding headers = none) :
    named "s-maxage".toList headers = [] ∧ named "max-age".toList headers = [] := by
  unfold deciding at h
  rw [Option.or_eq_none_iff, List.getLast?_eq_none_iff, List.getLast?_eq_none_iff] at h
  exact h

/-! ### Lists that differ in the other lines -/

/-- The headers with one more `Cache-Control` line. -/
def withLine (headers : HeaderMap) (line : Str) : HeaderMap :=
  headers.append "cache-control".toList (.ofText line)

theorem getAll_withLine (headers : HeaderMap) (line : Str) :
    (withLine headers line).getAll "cache-control".toList =
      headers.getAll "cache-control".toList ++ [.ofText line] := by
  rw [withLine, getAll_append, if_pos rfl]

theorem named_withLine (name : Str) (headers : HeaderMap) (line : Str) :
    named name (withLine headers line) =
      named name headers ++ (directivesOf (.ofText line)).filter (·.name = name) := by
  unfold named directives
  rw [getAll_withLine, List.flatMap_append, List.filter_append, List.flatMap_singleton]

theorem getAll_remove_of_ne {headers : HeaderMap} {name name' : Str} (h : name' ≠ name) :
    (headers.remove name).getAll name' = headers.getAll name' := by
  rw [HeaderMap.remove, HeaderMap.getAll, HeaderMap.getAll, List.filter_filter]
  refine congrArg (List.map Prod.snd) (List.filter_congr ?_)
  intro p _
  by_cases hp : p.1 = name'
  · simp [hp, h]
  · simp [hp]

theorem get_remove_self (headers : HeaderMap) (name : Str) :
    (headers.remove name).get name = none := by
  have hnone : (headers.remove name).getAll name = [] := by
    simp [HeaderMap.remove, HeaderMap.getAll, List.filter_filter]
  rw [HeaderMap.get, hnone, List.head?_nil]

/-! ## When the lifetime is respected -/

section Respected

variable {parseHttpDate : Str → Option Nat} {now : Nat} {headers : HeaderMap}

/-- One more line `max-age=0` or `max-age=1` shows when no `s-maxage` is plain. -/
theorem parse_withLine {line : Str} {n : Nat}
    (hs : lastPlain "s-maxage".toList headers = none)
    (hline : (directivesOf (.ofText line)).filter (·.name = "s-maxage".toList) = [])
    (hseconds : ((directivesOf (.ofText line)).filter (·.name = "max-age".toList)).filterMap
      (Directive.seconds "max-age".toList) = [n]) :
    parseCacheControlHeaders parseHttpDate now (withLine headers line) = some n := by
  have hs' : lastPlain "s-maxage".toList (withLine headers line) = none := by
    have hnamed : named "s-maxage".toList (withLine headers line) =
        named "s-maxage".toList headers := by
      rw [named_withLine, hline, List.append_nil]
    rw [lastPlain_of_named hnamed, hs]
  have hm' : lastPlain "max-age".toList (withLine headers line) = some n := by
    rw [lastPlain, named_withLine, List.filterMap_append, hseconds, List.getLast?_concat]
  rw [parseCacheControlHeaders_eq, hs', hm']
  rfl

theorem naming_withLine (line : Str)
    (hline : (directivesOf (.ofText line)).any (fun d => d.name = "s-maxage".toList) = false) :
    naming "s-maxage".toList (withLine headers line) = naming "s-maxage".toList headers := by
  unfold naming
  rw [getAll_withLine, List.filter_append, List.filter_singleton, hline]
  simp

theorem exists_plain_sMaxage (h : LifetimeRespected parseHttpDate now headers)
    (hs : named "s-maxage".toList headers ≠ []) :
    ∃ n, lastPlain "s-maxage".toList headers = some n := by
  rw [← Option.ne_none_iff_exists']
  intro hnone
  -- two header lists with the same `s-maxage` and different lifetimes
  have hzero : parseCacheControlHeaders parseHttpDate now headers = some 0 :=
    (h.sMaxage hs _ (naming_withLine "max-age=0".toList (by decide +kernel))).symm.trans
      (parse_withLine hnone (by decide +kernel) (by decide +kernel))
  have hone : parseCacheControlHeaders parseHttpDate now headers = some 1 :=
    (h.sMaxage hs _ (naming_withLine "max-age=1".toList (by decide +kernel))).symm.trans
      (parse_withLine hnone (by decide +kernel) (by decide +kernel))
  rw [hzero] at hone
  cases hone

theorem exists_plain_maxAge (h : LifetimeRespected parseHttpDate now headers)
    (hs : named "s-maxage".toList headers = []) (hm : named "max-age".toList headers ≠ []) :
    ∃ n, lastPlain "max-age".toList headers = some n := by
  rw [← Option.ne_none_iff_exists']
  intro hnone
  have hcc : "cache-control".toList ≠ "expires".toList := by
    decide
  have hlines : (headers.remove "expires".toList).getAll "cache-control".toList =
      headers.getAll "cache-control".toList :=
    getAll_remove_of_ne hcc
  have hnamed : ∀ name, named name (headers.remove "expires".toList) = named name headers := by
    intro name
    unfold named directives
    rw [hlines]
  -- without `Expires` there would be no lifetime at all
  have hwithout : parseCacheControlHeaders parseHttpDate now (headers.remove "expires".toList) =
      none := by
    rw [parseCacheControlHeaders_eq, lastPlain_of_named (hnamed _), lastPlain_of_named (hnamed _),
      lastPlain_of_nil hs, hnone, expiresTtl, get_remove_self]
    rfl
  have hsame := h.maxAge hs hm (headers.remove "expires".toList) (by rw [hnamed, hs])
    (by unfold naming; rw [hlines])
  exact hm (h.absent (hsame.symm.trans hwithout)).2.1

/-- A plain source gives the lifetime. -/
theorem parse_of_sMaxage {n : Nat} (h : lastPlain "s-maxage".toList headers = some n) :
    parseCacheControlHeaders parseHttpDate now headers = some n := by
  rw [parseCacheControlHeaders_eq, h]
  rfl

theorem parse_of_maxAge {n : Nat} (hs : named "s-maxage".toList headers = [])
    (h : lastPlain "max-age".toList headers = some n) :
    parseCacheControlHeaders parseHttpDate now headers = some n := by
  rw [parseCacheControlHeaders_eq, lastPlain_of_nil hs, h]
  rfl

theorem parse_of_expires (hs : named "s-maxage".toList headers = [])
    (hm : named "max-age".toList headers = []) :
    parseCacheControlHeaders parseHttpDate now headers =
      expiresTtl parseHttpDate now headers := by
  rw [parseCacheControlHeaders_eq, lastPlain_of_nil hs, lastPlain_of_nil hm]
  rfl

theorem expiresTtl_eq_none_iff :
    expiresTtl parseHttpDate now headers = none ↔ headers.getAll "expires".toList = [] := by
  unfold expiresTtl HeaderMap.get
  cases headers.getAll "expires".toList with
  | nil =>
      simp
  | cons v vs =>
      cases hdate : (HeaderValue.toStr v).bind parseHttpDate <;> simp [hdate]

variable (parseHttpDate now) in
/-- The number of the deciding directive is the lifetime. -/
theorem parse_of_decidedPlainly (h : DecidedPlainly headers) {d : Directive}
    (hd : d ∈ deciding headers) :
    ∃ n, parseCacheControlHeaders parseHttpDate now headers = some n ∧ n ≤ d.stated := by
  obtain ⟨n, hn, hle⟩ := h d hd
  rcases deciding_cases hd with ⟨-, hname⟩ | ⟨hs, -, hname⟩
  · exact ⟨n, parse_of_sMaxage (hname ▸ hn), hle⟩
  · exact ⟨n, parse_of_maxAge hs (hname ▸ hn), hle⟩

theorem LifetimeRespected.decidedPlainly (h : LifetimeRespected parseHttpDate now headers) :
    DecidedPlainly headers := by
  intro d hd
  rcases deciding_cases hd with ⟨hs, hname⟩ | ⟨hs, hm, hname⟩
  · obtain ⟨n, hn⟩ := exists_plain_sMaxage h hs
    exact ⟨n, hname ▸ hn, h.bounded n (parse_of_sMaxage hn) d hd⟩
  · obtain ⟨n, hn⟩ := exists_plain_maxAge h hs hm
    exact ⟨n, hname ▸ hn, h.bounded n (parse_of_maxAge hs hn) d hd⟩

theorem DecidedPlainly.lifetimeRespected (h : DecidedPlainly headers) :
    LifetimeRespected parseHttpDate now headers := by
  refine ⟨?_, ?_, ?_, ?_, ?_⟩
  · intro hs headers' hsame
    obtain ⟨d, hd, hname⟩ := deciding_of_sMaxage hs
    obtain ⟨n, hn, -⟩ := h d hd
    rw [hname] at hn
    have hn' := (lastPlain_of_named (named_of_naming hsame)).trans hn
    rw [parse_of_sMaxage hn, parse_of_sMaxage hn']
  · intro hs hm headers' hs' hsame
    obtain ⟨d, hd, hname⟩ := deciding_of_maxAge hs hm
    obtain ⟨n, hn, -⟩ := h d hd
    rw [hname] at hn
    have hn' := (lastPlain_of_named (named_of_naming hsame)).trans hn
    rw [parse_of_maxAge hs hn, parse_of_maxAge hs' hn']
  · intro hs hm headers' hs' hm' hsame
    rw [parse_of_expires hs hm, parse_of_expires hs' hm', expiresTtl, expiresTtl, HeaderMap.get,
      HeaderMap.get, hsame]
  · intro hnone
    have hdeciding : deciding headers = none := by
      rw [Option.eq_none_iff_forall_not_mem]
      intro d hd
      obtain ⟨n, hn, -⟩ := parse_of_decidedPlainly parseHttpDate now h hd
      rw [hnone] at hn
      cases hn
    have hempty := deciding_eq_none hdeciding
    rw [parse_of_expires hempty.1 hempty.2, expiresTtl_eq_none_iff] at hnone
    exact ⟨hempty.1, hempty.2, hnone⟩
  · intro ttl httl d hd
    obtain ⟨n, hn, hle⟩ := parse_of_decidedPlainly parseHttpDate now h hd
    rw [httl] at hn
    exact Option.some.inj hn ▸ hle

end Respected

/-- No directive is taken for an absent one exactly when the deciding directive, if there is one, is
decided plainly. -/
theorem lifetimeRespected_iff (parseHttpDate : Str → Option Nat) (now : Nat) (headers : HeaderMap) :
    LifetimeRespected parseHttpDate now headers ↔ DecidedPlainly headers :=
  ⟨LifetimeRespected.decidedPlainly, DecidedPlainly.lifetimeRespected⟩

/-- A quoted `s-maxage` of one minute is ignored, and the response lives for the day of its
`max-age`. -/
theorem not_lifetimeRespected_quoted :
    ¬ ∀ (parseHttpDate : Str → Option Nat) (now : Nat) (headers : HeaderMap),
      LifetimeRespected parseHttpDate now headers := by
  intro h
  have hbounded := (h (fun _ => none) 0
    [("cache-control".toList, .ofText "s-maxage=\"60\", max-age=86400".toList)]).bounded 86400
    (by decide +kernel)
  have hle := hbounded ⟨.ofText "s-maxage=\"60\", max-age=86400".toList, "s-maxage=\"60\"".toList⟩
    (by decide +kernel)
  exact absurd hle (by decide +kernel)

end Proxy
end Squiddish
