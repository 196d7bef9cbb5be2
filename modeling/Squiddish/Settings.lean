import Squiddish.Config
import Squiddish.Lib.Labels

/-!
# Settings — the configuration read from environment variables

`config.rs`.  A setting that is not there keeps its default, and a text that cannot be read stops
the proxy from starting.  Sizes are read with floating-point numbers, so `parse_size` is a
parameter here (`parseSize` of the module `Sizes` takes its place), as are the addresses of the
standard library and its tables of letters.

`readExactly_iff` says of which durations the proxy reads what they say.
-/

namespace Squiddish

open Lib

/-! ## Characters -/

/-- `char::is_whitespace`: the property `White_Space` of Unicode. -/
def isWhiteSpace (c : Char) : Bool :=
  let n := c.toNat
  (9 ≤ n && n ≤ 13) || n == 0x20 || n == 0x85 || n == 0xA0 || n == 0x1680 ||
    (0x2000 ≤ n && n ≤ 0x200A) || n == 0x2028 || n == 0x2029 || n == 0x202F || n == 0x205F ||
    n == 0x3000

/-- `str::to_lowercase`, which follows large tables outside ASCII.  It makes no white space of
anything else. -/
structure Lowercase where
  lower : Str → Str
  ofAscii : ∀ s, IsAscii s → lower s = toAsciiLowercase s
  startsWord : ∀ c s, isWhiteSpace c = false →
    ∃ d t, lower (c :: s) = d :: t ∧ isWhiteSpace d = false

theorem isWhiteSpace_toLower {c : Char} (h : isWhiteSpace c = false) :
    isWhiteSpace c.toLower = false := by
  by_cases hc : 65 ≤ c.toNat ∧ c.toNat ≤ 90
  · have hnat : c.toLower.toNat = c.toNat + 32 := by
      rw [toNat_toLower, if_pos hc]
    simp only [isWhiteSpace, hnat, Bool.or_eq_false_iff, Bool.and_eq_false_iff,
      decide_eq_false_iff_not, beq_eq_false_iff_ne]
    omega
  · have hsame : c.toLower = c := by
      rw [← Char.toNat_inj, toNat_toLower, if_neg hc]
    rwa [hsame]

/-- Lower case for ASCII letters alone. -/
def Lowercase.ascii : Lowercase where
  lower := toAsciiLowercase
  ofAscii := fun _ _ => rfl
  startsWord := fun c s h => ⟨c.toLower, toAsciiLowercase s, rfl, isWhiteSpace_toLower h⟩

/-- A digit or a sign is no white space. -/
theorem isWhiteSpace_of_number {c : Char} (h : c = '+' ∨ c.isDigit = true) :
    isWhiteSpace c = false := by
  rcases h with rfl | hdigit
  · decide
  · have hrange : 48 ≤ c.toNat ∧ c.toNat ≤ 57 := Char.isDigit_iff_toNat.1 hdigit
    simp only [isWhiteSpace, Bool.or_eq_false_iff, Bool.and_eq_false_iff,
      decide_eq_false_iff_not, beq_eq_false_iff_ne]
    omega

/-! ## Durations -/

def stripSuffix (c : Char) (s : Str) : Option Str :=
  if s.getLast? = some c then some s.dropLast else none

theorem stripSuffix_eq_some {c : Char} {s t : Str} : stripSuffix c s = some t ↔ s = t ++ [c] := by
  unfold stripSuffix
  constructor
  · intro h
    split at h
    · rename_i hlast
      rw [← Option.some.inj h]
      exact (List.dropLast_append_getLast? c hlast).symm
    · cases h
  · rintro rfl
    simp

/-- The letters of the units and their seconds, in the order in which they are tried. -/
def units : List (Char × Nat) :=
  [('d', 86400), ('h', 3600), ('m', 60), ('s', 1)]

/-- `parse_duration`, where the product of two `u64` wraps. -/
def parseDuration (L : Lowercase) (s : Str) : Option Nat :=
  let s := L.lower (trimBy isWhiteSpace s)
  match parseUnsigned 64 s with
  | some num => some num
  | none =>
      match units.findSome? (fun u => (stripSuffix u.1 s).map (fun n => (n, u.2))) with
      | some (numStr, multiplier) =>
          (parseUnsigned 64 (trimBy isWhiteSpace numStr)).map (fun num => num * multiplier % 2 ^ 64)
      | none => none

/-- The text is a number, or a number, white space and the letter of a unit. -/
def IsDuration (L : Lowercase) (s : Str) (n seconds : Nat) : Prop :=
  (parseUnsigned 64 (L.lower (trimBy isWhiteSpace s)) = some n ∧ seconds = 1) ∨
    ∃ num blank letter, L.lower (trimBy isWhiteSpace s) = num ++ blank ++ [letter] ∧
      parseUnsigned 64 num = some n ∧ (∀ c ∈ blank, isWhiteSpace c = true) ∧
      (letter, seconds) ∈ units

/-- A letter has one unit, and the letters are tried until one is found. -/
theorem findSome_units {s num : Str} {seconds : Nat} :
    units.findSome? (fun u => (stripSuffix u.1 s).map (fun n => (n, u.2))) = some (num, seconds) ↔
      ∃ letter, s = num ++ [letter] ∧ (letter, seconds) ∈ units := by
  constructor
  · intro h
    rcases List.exists_of_findSome?_eq_some h with ⟨u, hu, hstrip⟩
    rcases Option.map_eq_some_iff.1 hstrip with ⟨t, ht, hpair⟩
    rcases Prod.mk.inj hpair with ⟨rfl, rfl⟩
    exact ⟨u.1, stripSuffix_eq_some.1 ht, hu⟩
  · rintro ⟨letter, rfl, hletter⟩
    simp only [units, List.mem_cons, Prod.mk.injEq, List.not_mem_nil, or_false] at hletter
    rcases hletter with ⟨rfl, rfl⟩ | ⟨rfl, rfl⟩ | ⟨rfl, rfl⟩ | ⟨rfl, rfl⟩ <;>
      simp [units, stripSuffix]

theorem trimBy_number {num blank : Str} {n : Nat} (hnum : parseUnsigned 64 num = some n)
    (hblank : ∀ c ∈ blank, isWhiteSpace c = true) : trimBy isWhiteSpace (num ++ blank) = num :=
  trimBy_append_eq_self (fun _ hc => isWhiteSpace_of_number (mem_of_parseUnsigned hnum hc)) hblank

/-- A number does not end with the letter of a unit. -/
theorem parseUnsigned_of_unit {s : Str} {letter : Char} {seconds : Nat}
    (h : (letter, seconds) ∈ units) : parseUnsigned 64 (s ++ [letter]) = none := by
  cases hparse : parseUnsigned 64 (s ++ [letter]) with
  | none =>
      rfl
  | some n =>
      have hmem : letter ∈ s ++ [letter] := List.mem_append_right s (List.mem_singleton_self _)
      have hnumber := mem_of_parseUnsigned hparse hmem
      have hnone : ∀ u ∈ units, ¬ (u.1 = '+' ∨ u.1.isDigit = true) :=
        forall_mem_of_all (by decide)
      exact absurd hnumber (hnone _ h)

/-- In another case, too, a text that was trimmed does not begin with white space. -/
theorem head_trimmed {f : Str → Str} (hnil : f [] = [])
    (hword : ∀ c s, isWhiteSpace c = false → ∃ d t, f (c :: s) = d :: t ∧ isWhiteSpace d = false)
    {s t : Str} {c : Char} (h : f (trimBy isWhiteSpace s) = c :: t) : isWhiteSpace c = false := by
  cases hs : trimBy isWhiteSpace s with
  | nil =>
      rw [hs, hnil] at h
      cases h
  | cons d u =>
      rcases hword d u (head_trimBy hs) with ⟨e, v, hcase, he⟩
      rw [hs, hcase] at h
      rw [← (List.cons.inj h).1]
      exact he

theorem Lowercase.head_trimmed (L : Lowercase) {s t : Str} {c : Char}
    (h : L.lower (trimBy isWhiteSpace s) = c :: t) : isWhiteSpace c = false :=
  Squiddish.head_trimmed (L.ofAscii [] fun _ hd => by cases hd) L.startsWord h

theorem isDuration_unit {L : Lowercase} {s num blank : Str} {letter : Char} {n seconds : Nat}
    (hs : L.lower (trimBy isWhiteSpace s) = num ++ blank ++ [letter])
    (hnum : parseUnsigned 64 num = some n) (hblank : ∀ c ∈ blank, isWhiteSpace c = true)
    (hletter : (letter, seconds) ∈ units) : parseDuration L s = some (n * seconds % 2 ^ 64) := by
  have hunit := (findSome_units (s := num ++ blank ++ [letter])).2 ⟨letter, rfl, hletter⟩
  simp only [parseDuration, hs, parseUnsigned_of_unit hletter, hunit, trimBy_number hnum hblank,
    hnum, Option.map_some]

/-- What `parse_duration` reads. -/
theorem parseDuration_eq_some {L : Lowercase} {s : Str} {v : Nat} :
    parseDuration L s = some v ↔
      ∃ n seconds, IsDuration L s n seconds ∧ v = n * seconds % 2 ^ 64 := by
  constructor
  · intro h
    unfold parseDuration at h
    cases hnum : parseUnsigned 64 (L.lower (trimBy isWhiteSpace s)) with
    | some n =>
        have hv : n = v := by
          simpa [hnum] using h
        refine ⟨n, 1, Or.inl ⟨hnum, rfl⟩, ?_⟩
        rw [Nat.mul_one, Nat.mod_eq_of_lt (lt_of_parseUnsigned hnum), hv]
    | none =>
        simp only [hnum] at h
        split at h
        · rename_i numStr multiplier hunit
          rcases findSome_units.1 hunit with ⟨letter, hs, hletter⟩
          rcases Option.map_eq_some_iff.1 h with ⟨n, hn, hv⟩
          -- the text was trimmed, so all white space stands before the letter
          rcases exists_eq_trimBy_append (fun _ _ hc => L.head_trimmed (hs.trans hc)) with
            ⟨b, hparts, hb⟩
          exact ⟨n, multiplier,
            Or.inr ⟨trimBy isWhiteSpace numStr, b, letter, by rw [← hparts, hs], hn, hb, hletter⟩,
            hv.symm⟩
        · cases h
  · rintro ⟨n, seconds, ⟨hnum, rfl⟩ | ⟨num, blank, letter, hs, hnum, hblank, hletter⟩, rfl⟩
    · rw [Nat.mul_one, Nat.mod_eq_of_lt (lt_of_parseUnsigned hnum)]
      simp only [parseDuration, hnum]
    · exact isDuration_unit hs hnum hblank hletter

/-- A text is read in one way only. -/
theorem IsDuration.unique {L : Lowercase} {s : Str} {n n' seconds seconds' : Nat}
    (h : IsDuration L s n seconds) (h' : IsDuration L s n' seconds') :
    n = n' ∧ seconds = seconds' := by
  rcases h with ⟨hnum, rfl⟩ | ⟨num, blank, letter, hs, hnum, hblank, hletter⟩
  · rcases h' with ⟨hnum', rfl⟩ | ⟨num', blank', letter', hs', -, -, hletter'⟩
    · rw [hnum] at hnum'
      exact ⟨Option.some.inj hnum', rfl⟩
    · rw [hs', parseUnsigned_of_unit hletter'] at hnum
      cases hnum
  · rcases h' with ⟨hnum', rfl⟩ | ⟨num', blank', letter', hs', hnum', hblank', hletter'⟩
    · rw [hs, parseUnsigned_of_unit hletter] at hnum'
      cases hnum'
    · -- the letter is the last character, and what stands before it is trimmed
      have hunit := (findSome_units (s := L.lower (trimBy isWhiteSpace s))).2 ⟨letter, hs, hletter⟩
      have hunit' :=
        (findSome_units (s := L.lower (trimBy isWhiteSpace s))).2 ⟨letter', hs', hletter'⟩
      rcases Prod.mk.inj (Option.some.inj (hunit.symm.trans hunit')) with ⟨hparts, hseconds⟩
      have hsame : num = num' := by
        calc
          num = trimBy isWhiteSpace (num ++ blank) := (trimBy_number hnum hblank).symm
          _ = trimBy isWhiteSpace (num' ++ blank') := by rw [hparts]
          _ = num' := trimBy_number hnum' hblank'
      subst hsame
      rw [hnum] at hnum'
      exact ⟨Option.some.inj hnum', hseconds⟩

/-! ## Other settings -/

/-- `usize::from_str` behind the sign, digit by digit. -/
def parseDigits : Str → Nat → Except Str Nat
  | [], n => .ok n
  | c :: s, n =>
      if c.isDigit then
        let n := 10 * n + (c.toNat - '0'.toNat)
        if n < 2 ^ 64 then parseDigits s n
        else .error "number too large to fit in target type".toList
      else
        .error "invalid digit found in string".toList

def parseUsize : Str → Except Str Nat
  | [] => .error "cannot parse integer from empty string".toList
  | ['+'] => .error "invalid digit found in string".toList
  | '+' :: s => parseDigits s 0
  | s => parseDigits s 0

def parseBool (s : Str) : Except Str Bool :=
  if s = "true".toList then .ok true
  else if s = "false".toList then .ok false
  else .error "provided string was not `true` or `false`".toList

/-- The host patterns of a comma-separated list. -/
def parseHosts (s : Str) : List Str :=
  ((s.splitOn ',').map (trimBy isWhiteSpace)).filter (fun host => host ≠ [])

/-! ## The configuration -/

/-- What `Config` holds; its address and its directory are not read on the request path. -/
structure Settings (Addr : Type) where
  bindAddr : Addr
  cacheDir : Str
  config : Config

/-- What reading the settings rests on. -/
structure Parsers (Addr : Type) where
  lowercase : Lowercase
  parseSize : Str → Option Nat
  parseAddr : Str → Except Str Addr
  /-- The address `127.0.0.1:3128`. -/
  defaultAddr : Addr

/-- A line of `from_vars`. -/
abbrev Setting (Addr : Type) := Settings Addr → Except Str (Settings Addr)

def invalid (name text hint : Str) : Str :=
  "Invalid ".toList ++ name ++ " '".toList ++ text ++ "': ".toList ++ hint

section FromVars

variable {Addr α : Type} (P : Parsers Addr) (getVar : Str → Option Str)

def readVar (name : Str) (parse : Str → Except Str α)
    (set : α → Settings Addr → Settings Addr) : Setting Addr := fun s =>
  match getVar name with
  | none => .ok s
  | some text =>
      match parse text with
      | .ok a => .ok (set a s)
      | .error e => .error e

/-- A setting whose error is the one of the standard library. -/
def readParsed (name : Str) (parse : Str → Except Str α)
    (set : α → Settings Addr → Settings Addr) : Setting Addr :=
  readVar getVar name
    (fun text =>
      match parse text with
      | .ok a => .ok a
      | .error e => .error (invalid name text e))
    set

def readSize (name : Str) (set : Nat → Settings Addr → Settings Addr) : Setting Addr :=
  readVar getVar name
    (fun text =>
      match P.parseSize text with
      | some size => .ok size
      | none => .error (invalid name text
          "expected number with optional unit (KB, MB, GB, TB)".toList))
    set

def readDuration (name : Str) (set : Nat → Settings Addr → Settings Addr) : Setting Addr :=
  readVar getVar name
    (fun text =>
      match parseDuration P.lowercase text with
      | some seconds => .ok seconds
      | none => .error (invalid name text
          "expected number with optional unit (s, m, h, d)".toList))
    set

def onCache (set : α → CacheConfig → CacheConfig) (v : α) (s : Settings Addr) : Settings Addr :=
  { s with config := { s.config with cache := set v s.config.cache } }

def onApt (set : α → AptConfig → AptConfig) (v : α) (s : Settings Addr) : Settings Addr :=
  { s with config := { s.config with apt := set v s.config.apt } }

def onSecurity (set : α → SecurityConfig → SecurityConfig) (v : α) (s : Settings Addr) :
    Settings Addr :=
  { s with config := { s.config with security := set v s.config.security } }

def requirePositive (name : Str) (value : Config → Nat) : Setting Addr := fun s =>
  if value s.config = 0 then .error (name ++ " must be greater than 0".toList) else .ok s

/-- The lines of `from_vars` in their order.  A size fits into a `usize` of 64 bits. -/
def settings : List (Setting Addr) :=
  [readParsed getVar "SQUIDDISH_BIND_ADDR".toList P.parseAddr (fun v s => { s with bindAddr := v }),
    readSize P getVar "SQUIDDISH_MEMORY_SIZE".toList
      (onCache fun v c => { c with memorySize := v }),
    readSize P getVar "SQUIDDISH_DISK_SIZE".toList (onCache fun v c => { c with diskSize := v }),
    readVar getVar "SQUIDDISH_CACHE_DIR".toList .ok (fun v s => { s with cacheDir := v }),
    readDuration P getVar "SQUIDDISH_TTL".toList (onCache fun v c => { c with ttlSeconds := v }),
    readParsed getVar "SQUIDDISH_APT_ENABLED".toList parseBool
      (onApt fun v c => { c with enabled := v }),
    readDuration P getVar "SQUIDDISH_APT_LIST_TTL".toList
      (onApt fun v c => { c with listTtlSeconds := v }),
    readDuration P getVar "SQUIDDISH_APT_PACKAGE_TTL".toList
      (onApt fun v c => { c with packageTtlSeconds := v }),
    readDuration P getVar "SQUIDDISH_APT_OTHER_TTL".toList
      (onApt fun v c => { c with otherTtlSeconds := v }),
    readSize P getVar "SQUIDDISH_MAX_BODY_SIZE".toList
      (onSecurity fun v c => { c with maxBodySize := v }),
    readParsed getVar "SQUIDDISH_MAX_CONNECTIONS".toList parseUsize
      (onSecurity fun v c => { c with maxConnections := v }),
    readDuration P getVar "SQUIDDISH_TIMEOUT".toList
      (onSecurity fun v c => { c with timeoutSeconds := v }),
    readParsed getVar "SQUIDDISH_STRICT_HTTPS".toList parseBool
      (onSecurity fun v c => { c with strictHttps := v }),
    readVar getVar "SQUIDDISH_ALLOWED_HOSTS".toList (fun text => .ok (parseHosts text))
      (onSecurity fun v c => { c with allowedHosts := v }),
    readVar getVar "SQUIDDISH_BLOCKED_HOSTS".toList (fun text => .ok (parseHosts text))
      (onSecurity fun v c => { c with blockedHosts := v }),
    requirePositive "SQUIDDISH_MEMORY_SIZE".toList (fun c => c.cache.memorySize),
    requirePositive "SQUIDDISH_DISK_SIZE".toList (fun c => c.cache.diskSize),
    requirePositive "SQUIDDISH_MAX_BODY_SIZE".toList (fun c => c.security.maxBodySize),
    requirePositive "SQUIDDISH_MAX_CONNECTIONS".toList (fun c => c.security.maxConnections),
    requirePositive "SQUIDDISH_TIMEOUT".toList (fun c => c.security.timeoutSeconds)]

/-- `Config::from_vars`. -/
def fromVars : Except Str (Settings Addr) :=
  (settings P getVar).foldlM (fun s setting => setting s)
    { bindAddr := P.defaultAddr, cacheDir := "./cache".toList, config := .default }

/-- The variables that hold durations. -/
def durationNames : List Str :=
  ["SQUIDDISH_TTL".toList, "SQUIDDISH_APT_LIST_TTL".toList, "SQUIDDISH_APT_PACKAGE_TTL".toList,
    "SQUIDDISH_APT_OTHER_TTL".toList, "SQUIDDISH_TIMEOUT".toList]

theorem exists_setting {name : Str} (h : name ∈ durationNames) :
    ∃ set, readDuration P getVar name set ∈ settings P getVar := by
  simp only [durationNames, List.mem_cons, List.not_mem_nil, or_false] at h
  rcases h with rfl | rfl | rfl | rfl | rfl
  · exact ⟨onCache fun v c => { c with ttlSeconds := v }, by simp [settings]⟩
  · exact ⟨onApt fun v c => { c with listTtlSeconds := v }, by simp [settings]⟩
  · exact ⟨onApt fun v c => { c with packageTtlSeconds := v }, by simp [settings]⟩
  · exact ⟨onApt fun v c => { c with otherTtlSeconds := v }, by simp [settings]⟩
  · exact ⟨onSecurity fun v c => { c with timeoutSeconds := v }, by simp [settings]⟩

/-- One line that fails is enough. -/
theorem foldlM_error {steps : List (Setting Addr)} {step : Setting Addr} (hmem : step ∈ steps)
    (hstep : ∀ s, ∃ e, step s = .error e) (s : Settings Addr) :
    ∃ e, steps.foldlM (fun s setting => setting s) s = .error e := by
  induction steps generalizing s with
  | nil =>
      cases hmem
  | cons first steps ih =>
      cases hfirst : first s with
      | error e =>
          exact ⟨e, by rw [List.foldlM_cons, hfirst]; rfl⟩
      | ok t =>
          have hrest : step ∈ steps := by
            rcases List.mem_cons.1 hmem with rfl | hrest
            · rcases hstep s with ⟨e, he⟩
              rw [he] at hfirst
              cases hfirst
            · exact hrest
          rcases ih hrest t with ⟨e, he⟩
          exact ⟨e, by rw [List.foldlM_cons, hfirst]; exact he⟩

/-- A duration that is refused stops the proxy from starting. -/
theorem fromVars_error {name text : Str} (hname : name ∈ durationNames)
    (htext : getVar name = some text) (hrefused : parseDuration P.lowercase text = none) :
    ∃ e, fromVars P getVar = .error e := by
  rcases exists_setting P getVar hname with ⟨set, hset⟩
  refine foldlM_error hset ?_ _
  intro s
  refine ⟨invalid name text "expected number with optional unit (s, m, h, d)".toList, ?_⟩
  simp only [readDuration, readVar, htext, hrefused]

end FromVars

/-! ## Which durations are read exactly -/

/-- A duration is read as what it says, or refused when that is no `u64`. -/
structure ReadExactly {Addr : Type} (P : Parsers Addr) (s : Str) : Prop where
  exact : ∀ v, parseDuration P.lowercase s = some v ↔
    ∃ n seconds, IsDuration P.lowercase s n seconds ∧ n * seconds < 2 ^ 64 ∧ v = n * seconds
  refused : parseDuration P.lowercase s = none → ∀ getVar : Str → Option Str,
    ∀ name ∈ durationNames, getVar name = some s → ∃ e, fromVars P getVar = .error e

theorem ReadExactly.fits {Addr : Type} {P : Parsers Addr} {s : Str} (h : ReadExactly P s)
    {n seconds : Nat} (hduration : IsDuration P.lowercase s n seconds) : n * seconds < 2 ^ 64 := by
  have hread := (h.exact _).1 (parseDuration_eq_some.2 ⟨n, seconds, hduration, rfl⟩)
  rcases hread with ⟨n', seconds', hduration', hfits, -⟩
  rcases hduration.unique hduration' with ⟨rfl, rfl⟩
  exact hfits

/-- The product must not wrap. -/
theorem readExactly_iff {Addr : Type} (P : Parsers Addr) (s : Str) :
    ReadExactly P s ↔
      ∀ n seconds, IsDuration P.lowercase s n seconds → n * seconds < 2 ^ 64 := by
  constructor
  · intro h n seconds hduration
    exact h.fits hduration
  · intro h
    refine ⟨fun v => ?_, fun hnone getVar name hname htext =>
      fromVars_error P getVar hname htext hnone⟩
    rw [parseDuration_eq_some]
    constructor
    · rintro ⟨n, seconds, hduration, rfl⟩
      have hfits := h n seconds hduration
      exact ⟨n, seconds, hduration, hfits, Nat.mod_eq_of_lt hfits⟩
    · rintro ⟨n, seconds, hduration, hfits, rfl⟩
      exact ⟨n, seconds, hduration, (Nat.mod_eq_of_lt hfits).symm⟩

/-- Parsers that know ASCII letters only, no sizes and one address. -/
def asciiParsers : Parsers Unit where
  lowercase := .ascii
  parseSize := fun _ => none
  parseAddr := fun _ => .ok ()
  defaultAddr := ()

/-- More days than a `u64` has seconds. -/
def longDuration : Str := "213503982334602d".toList

theorem isDuration_long :
    IsDuration asciiParsers.lowercase longDuration 213503982334602 86400 :=
  Or.inr ⟨"213503982334602".toList, [], 'd', by decide, by decide,
    (fun c hc => by cases hc), by decide⟩

/-- They are read as seventeen hours, and the proxy starts. -/
theorem not_readExactly_long :
    (¬ ∀ s, ReadExactly asciiParsers s) ∧ parseDuration .ascii longDuration = some 61184 ∧
      ∃ s, fromVars asciiParsers
          (fun name => if name = "SQUIDDISH_TTL".toList then some longDuration else none) = .ok s ∧
        s.config.cache.ttlSeconds = 61184 := by
  refine ⟨fun h => ?_, by decide, ?_⟩
  · exact absurd ((h longDuration).fits isDuration_long) (by decide)
  · exact ⟨_, rfl, rfl⟩

end Squiddish
