import Squiddish.Lib.Labels
import Squiddish.Proxy.Validate

/-!
# Hosts — which hosts a pattern matches

`host_matches` compares bytes; what it decides is a question about the labels of a name.
`hostMatches_spellings` says so for every spelling of a host.  The root dot is not part of what it
strips, and `notNamed_iff` says on which accepted requests a blocked host is let through for that.
-/

namespace Squiddish
namespace Proxy

open Lib

/-! ## Labels of a name -/

def labels (name : Str) : List Str :=
  name.splitOn '.'

/-- The labels of `pattern` are the last labels of `name`, ignoring ASCII case. -/
def LabelSuffix (pattern name : Str) : Prop :=
  (labels pattern).map toAsciiLowercase <:+ (labels name).map toAsciiLowercase

instance (pattern name : Str) : Decidable (LabelSuffix pattern name) := by
  unfold LabelSuffix
  infer_instance

theorem labels_toAsciiLowercase (name : Str) :
    labels (toAsciiLowercase name) = (labels name).map toAsciiLowercase :=
  splitOn_map (toLower_eq_iff (by decide) (by decide)) name

/-- In bytes: the name is the pattern, or ends with a dot and the pattern. -/
theorem labelSuffix_iff {pattern name : Str} :
    LabelSuffix pattern name ↔
      toAsciiLowercase name = toAsciiLowercase pattern ∨
        ∃ t, toAsciiLowercase name = t ++ '.' :: toAsciiLowercase pattern := by
  unfold LabelSuffix
  rw [← labels_toAsciiLowercase, ← labels_toAsciiLowercase]
  exact splitOn_suffix_iff

/-! ## What `host_matches` decides -/

theorem take_append_getLast (a tail : Str) :
    ((a ++ tail).take ((a ++ tail).length - tail.length)).getLast? = a.getLast? := by
  simp

/-- A tail of the host with as many bytes as the pattern, and the dot before it. -/
theorem labelSuffix_append_iff {a tail pattern : Str} (hlen : utf8Len tail = utf8Len pattern)
    (ha : a ≠ []) :
    LabelSuffix pattern (a ++ tail) ↔
      eqIgnoreAsciiCase tail pattern = true ∧ a.getLast? = some '.' := by
  have hlow : toAsciiLowercase (a ++ tail) = toAsciiLowercase a ++ toAsciiLowercase tail :=
    List.map_append
  rw [labelSuffix_iff, hlow, eqIgnoreAsciiCase_iff]
  constructor
  · rintro (hwhole | ⟨t, ht⟩)
    -- the host is longer than the pattern
    · have hwhole' : toAsciiLowercase a ++ toAsciiLowercase tail =
          [] ++ toAsciiLowercase pattern := hwhole
      have hinj := append_inj_of_utf8Len hwhole' (by simpa using hlen)
      exact absurd (by simpa [toAsciiLowercase] using hinj.1) ha
    · have hsplit : toAsciiLowercase a ++ toAsciiLowercase tail =
          (t ++ ['.']) ++ toAsciiLowercase pattern := by
        simpa using ht
      have hinj := append_inj_of_utf8Len hsplit (by simpa using hlen)
      refine ⟨hinj.2, ?_⟩
      have hlast : (toAsciiLowercase a).getLast? = some '.' := by
        rw [hinj.1]
        simp
      obtain ⟨c, hc, hdot⟩ : ∃ c, a.getLast? = some c ∧ c.toLower = '.' := by
        simpa [toAsciiLowercase, List.getLast?_map] using hlast
      rw [hc, (toLower_eq_iff (by decide) (by decide) c).1 hdot]
  · rintro ⟨htail, hlast⟩
    obtain ⟨t, rfl⟩ := List.getLast?_eq_some_iff.1 hlast
    refine Or.inr ⟨toAsciiLowercase t, ?_⟩
    rw [htail]
    simp [toAsciiLowercase]

theorem hostMatches_eq_ok {host pattern : Str} {b : Bool}
    (h : hostMatches host pattern = .ok b) :
    b = true ↔ LabelSuffix pattern (stripHostPort host) := by
  unfold hostMatches at h
  generalize stripHostPort host = name at h ⊢
  by_cases heq : eqIgnoreAsciiCase name pattern = true
  · have hb : true = b := by
      simpa [heq] using h
    have hsuffix : LabelSuffix pattern name :=
      labelSuffix_iff.2 (Or.inl (eqIgnoreAsciiCase_iff.1 heq))
    simp [← hb, hsuffix]
  · by_cases hlong : utf8Len pattern < utf8Len name
    · cases hdrop : dropBytes (utf8Len name - utf8Len pattern) name with
      | none =>
          simp [heq, hlong, hdrop] at h
      | some tail =>
          have hb : (eqIgnoreAsciiCase tail pattern &&
              (name.take (name.length - tail.length)).getLast? == some '.') = b := by
            simpa [heq, hlong, hdrop] using h
          obtain ⟨a, rfl, ha⟩ := dropBytes_eq_some hdrop
          have hlen : utf8Len tail = utf8Len pattern := by
            rw [utf8Len_append] at ha hlong
            omega
          have hne : a ≠ [] := by
            rintro rfl
            exact absurd hlen (by simpa using Nat.ne_of_gt hlong)
          rw [take_append_getLast] at hb
          rw [labelSuffix_append_iff hlen hne, ← hb, Bool.and_eq_true, beq_iff_eq]
    -- a name that is no longer than the pattern has no label before it
    · have hb : false = b := by
        simpa [heq, hlong] using h
      have hnot : ¬ LabelSuffix pattern name := by
        rw [labelSuffix_iff]
        rintro (hwhole | ⟨t, ht⟩)
        · exact heq (eqIgnoreAsciiCase_iff.2 hwhole)
        · have hlen := congrArg utf8Len ht
          simp only [utf8Len_toAsciiLowercase, utf8Len_append, utf8Len_cons] at hlen
          have hdot := Char.utf8Size_pos '.'
          omega
      simp [← hb, hnot]

/-- On an ASCII host the slice is taken between two characters. -/
theorem hostMatches_of_isAscii {host pattern : Str} (h : IsAscii (stripHostPort host)) :
    hostMatches host pattern = .ok (decide (LabelSuffix pattern (stripHostPort host))) := by
  have hok : ∃ b, hostMatches host pattern = .ok b := by
    unfold hostMatches
    by_cases heq : eqIgnoreAsciiCase (stripHostPort host) pattern = true
    · exact ⟨true, by simp [heq]⟩
    · by_cases hlong : utf8Len pattern < utf8Len (stripHostPort host)
      · have hdrop := dropBytes_of_isAscii h (Nat.sub_le _ (utf8Len pattern))
        simp [heq, hlong, hdrop]
      · exact ⟨false, by simp [heq, hlong]⟩
  obtain ⟨b, hb⟩ := hok
  have hdecide : b = decide (LabelSuffix pattern (stripHostPort host)) := by
    rw [Bool.eq_iff_iff, decide_eq_true_iff]
    exact hostMatches_eq_ok hb
  rw [hb, hdecide]

/-! ## Spellings of a host -/

/-- A host name or an IPv4 address. -/
structure IsName (n : Str) : Prop where
  ascii : IsAscii n
  colon : ':' ∉ n
  bracket : '[' ∉ n

/-- The text of an IPv6 address. -/
structure IsIpv6 (v : Str) : Prop where
  ascii : IsAscii v
  colons : 2 ≤ v.count ':'
  opening : '[' ∉ v
  closing : ']' ∉ v

def IsPort (port : Str) : Prop :=
  ∀ c ∈ port, c.isDigit = true

theorem IsPort.notMem {port : Str} (h : IsPort port) {c : Char} (hc : c.isDigit = false) :
    c ∉ port := by
  intro hmem
  have hdigit := h c hmem
  rw [hc] at hdigit
  cases hdigit

theorem stripHostPort_of_notMem {host : Str} (h : '[' ∉ host) :
    stripHostPort host =
      if host.count ':' > 1 then host
      else
        match rsplitOnce ':' host with
        | some (h, _) => h
        | none => host := by
  unfold stripHostPort
  split
  · exact absurd List.mem_cons_self h
  · rfl

@[simp] theorem stripHostPort_name {n : Str} (h : IsName n) : stripHostPort n = n := by
  rw [stripHostPort_of_notMem h.bracket, rsplitOnce_eq_none.2 h.colon]
  simp

@[simp] theorem stripHostPort_name_port {n port : Str} (h : IsName n) (hport : IsPort port) :
    stripHostPort (n ++ ':' :: port) = n := by
  have hopening : '[' ∉ n ++ ':' :: port := by
    simp [h.bracket, hport.notMem]
  have hcount : (n ++ ':' :: port).count ':' = 1 := by
    rw [List.count_append, List.count_cons_self, List.count_eq_zero.2 h.colon,
      List.count_eq_zero.2 (hport.notMem (by decide))]
  rw [stripHostPort_of_notMem hopening, hcount,
    rsplitOnce_eq_some.2 ⟨rfl, hport.notMem (by decide)⟩]
  rfl

@[simp] theorem stripHostPort_ipv6 {v : Str} (h : IsIpv6 v) : stripHostPort v = v := by
  exact (stripHostPort_of_notMem h.opening).trans (if_pos h.colons)

@[simp] theorem stripHostPort_brackets {v : Str} (h : IsIpv6 v) (rest : Str) :
    stripHostPort ('[' :: (v ++ ']' :: rest)) = v :=
  beforeFirst_append h.closing rest

/-- Every spelling of a host is matched by the labels of its name, and none makes the slice
panic. -/
theorem hostMatches_spellings {n v port : Str} (hn : IsName n) (hv : IsIpv6 v)
    (hport : IsPort port) (pattern : Str) :
    (hostMatches n pattern = .ok (decide (LabelSuffix pattern n)) ∧
      hostMatches (n ++ ':' :: port) pattern = .ok (decide (LabelSuffix pattern n))) ∧
    ∃ b, hostMatches v pattern = .ok b ∧ hostMatches ('[' :: (v ++ [']'])) pattern = .ok b ∧
      hostMatches ('[' :: (v ++ ']' :: ':' :: port)) pattern = .ok b := by
  refine ⟨⟨?_, ?_⟩, decide (LabelSuffix pattern v), ?_, ?_, ?_⟩
  · rw [hostMatches_of_isAscii (by simpa [hn] using hn.ascii), stripHostPort_name hn]
  · rw [hostMatches_of_isAscii (by simpa [hn, hport] using hn.ascii),
      stripHostPort_name_port hn hport]
  · rw [hostMatches_of_isAscii (by simpa [hv] using hv.ascii), stripHostPort_ipv6 hv]
  · rw [hostMatches_of_isAscii (by simpa [hv] using hv.ascii), stripHostPort_brackets hv]
  · rw [hostMatches_of_isAscii (by simpa [hv] using hv.ascii), stripHostPort_brackets hv]

theorem hostMatches_spellings_example :
    (hostMatches "sub.Example.com".toList "example.com".toList = .ok true ∧
      hostMatches "sub.Example.com:443".toList "example.com".toList = .ok true) ∧
    ∃ b, hostMatches "::1".toList "example.com".toList = .ok b ∧
      hostMatches "[::1]".toList "example.com".toList = .ok b ∧
      hostMatches "[::1]:443".toList "example.com".toList = .ok b := by
  have hn : IsName "sub.Example.com".toList :=
    ⟨forall_mem_of_all (by decide), by decide, by decide⟩
  have hv : IsIpv6 "::1".toList :=
    ⟨forall_mem_of_all (by decide), by decide, by decide, by decide⟩
  have hport : IsPort "443".toList := forall_mem_of_all (by decide)
  have hsuffix : decide (LabelSuffix "example.com".toList "sub.Example.com".toList) = true := by
    decide
  have hall := hostMatches_spellings hn hv hport "example.com".toList
  rw [hsuffix] at hall
  exact hall

/-! ## The root dot -/

def hasRootDot (name : Str) : Bool :=
  name.getLast? == some '.'

/-- The name without the dot of the root. -/
def dropRootDot (name : Str) : Str :=
  if hasRootDot name then name.dropLast else name

/-- The other spelling of a name: with the dot of the root or without it. -/
def respell (name : Str) : Str :=
  if hasRootDot name then name.dropLast else name ++ ['.']

/-- `name` is `blocked` or a name under it, whichever way the two are spelled. -/
def NamedBy (blocked name : Str) : Prop :=
  LabelSuffix (dropRootDot blocked) (dropRootDot name)

theorem hasRootDot_iff {name : Str} : hasRootDot name = true ↔ ∃ m, name = m ++ ['.'] := by
  rw [hasRootDot, beq_iff_eq, List.getLast?_eq_some_iff]

@[simp] theorem dropRootDot_dot (m : Str) : dropRootDot (m ++ ['.']) = m := by
  simp [dropRootDot, hasRootDot]

@[simp] theorem respell_dot (m : Str) : respell (m ++ ['.']) = m := by
  simp [respell, hasRootDot]

/-- A dot at the end of both names makes no difference. -/
theorem labelSuffix_dot {p n : Str} : LabelSuffix (p ++ ['.']) (n ++ ['.']) ↔ LabelSuffix p n := by
  have hlabels : ∀ s : Str, (labels (s ++ ['.'])).map toAsciiLowercase =
      (labels s).map toAsciiLowercase ++ [[]] := by
    intro s
    rw [labels, List.splitOn_append_cons_self]
    simp [labels, toAsciiLowercase]
  unfold LabelSuffix
  rw [hlabels, hlabels, List.suffix_append_self_iff]

theorem namedBy_of_same {b n : Str} (h : hasRootDot b = hasRootDot n) :
    NamedBy b n ↔ LabelSuffix b n := by
  unfold NamedBy
  cases hb : hasRootDot b with
  | false =>
      simp [dropRootDot, hb, ← h]
  | true =>
      obtain ⟨b', rfl⟩ := hasRootDot_iff.1 hb
      obtain ⟨n', rfl⟩ := hasRootDot_iff.1 (h ▸ hb)
      rw [dropRootDot_dot, dropRootDot_dot, labelSuffix_dot]

theorem namedBy_of_differ {b n : Str} (h : hasRootDot b ≠ hasRootDot n) :
    NamedBy b n ↔ LabelSuffix b (respell n) := by
  unfold NamedBy
  cases hb : hasRootDot b with
  -- only the host has the dot
  | false =>
      have hn : hasRootDot n = true := by
        simpa [hb] using h.symm
      obtain ⟨n', rfl⟩ := hasRootDot_iff.1 hn
      rw [dropRootDot_dot, respell_dot]
      simp [dropRootDot, hb]
  -- only the blocked name has it
  | true =>
      have hn : hasRootDot n = false := by
        simpa [hb] using h.symm
      obtain ⟨b', rfl⟩ := hasRootDot_iff.1 hb
      rw [dropRootDot_dot]
      simp [dropRootDot, respell, hn, labelSuffix_dot]

/-! ## Blocked hosts -/

theorem anyHostMatches_eq_false {host : Str} {patterns : List Str}
    (h : anyHostMatches host patterns = .ok false) :
    ∀ pattern ∈ patterns, hostMatches host pattern = .ok false := by
  induction patterns with
  | nil =>
      intro pattern hpattern
      cases hpattern
  | cons p patterns ih =>
      unfold anyHostMatches at h
      cases hp : hostMatches host p with
      | error e =>
          simp [hp] at h
      | ok b =>
          cases b with
          | true =>
              simp [hp] at h
          | false =>
              have hrest : anyHostMatches host patterns = .ok false := by
                simpa [hp] using h
              intro pattern hpattern
              rcases List.mem_cons.1 hpattern with rfl | hmem
              · exact hp
              · exact ih hrest pattern hmem

/-- A check that has not ended the function was answered `false`. -/
theorem eq_false_of_refusing {x : Outcome Bool} {e : Failure} {f : PUnit → Outcome Unit}
    {rest : Outcome Unit}
    (h : (x >>= fun refused => if refused = true then throw e >>= f else rest) = .ok ()) :
    x = .ok false := by
  cases x with
  | error e' =>
      cases h
  | ok refused =>
      cases refused with
      | true =>
          cases h
      | false =>
          rfl

/-- What `validate_request` has found out about the blocked hosts. -/
theorem hostMatches_of_validateRequest {security : SecurityConfig} {req : Request} {host : Str}
    (h : validateRequest security req = .ok ()) (hhost : requestHost req = some host) :
    ∀ blocked ∈ security.blockedHosts, hostMatches host blocked = .ok false := by
  intro blocked hblocked
  have hne : security.blockedHosts ≠ [] := List.ne_nil_of_mem hblocked
  refine anyHostMatches_eq_false ?_ blocked hblocked
  unfold validateRequest at h
  simp only [hhost, if_pos hne] at h
  split at h
  -- a request loop
  · cases h
  · split at h
    · cases hallowed : anyHostMatches host security.allowedHosts with
      | error e =>
          rw [hallowed] at h
          cases h
      | ok allowed =>
          rw [hallowed] at h
          cases allowed with
          | false =>
              cases h
          | true =>
              exact eq_false_of_refusing h
    -- every host is allowed
    · exact eq_false_of_refusing h

/-- No blocked name that differs from the host in its root dot matches the host when the host is
spelled the other way. -/
def RespelledUnblocked (security : SecurityConfig) (host : Str) : Prop :=
  ∀ blocked ∈ security.blockedHosts, hasRootDot blocked ≠ hasRootDot (stripHostPort host) →
    ¬ LabelSuffix blocked (respell (stripHostPort host))

/-- An accepted request is for no blocked host exactly when its host would have been accepted in
its other spelling too. -/
theorem notNamed_iff {security : SecurityConfig} {req : Request} {host : Str}
    (h : validateRequest security req = .ok ()) (hhost : requestHost req = some host) :
    (∀ blocked ∈ security.blockedHosts, ¬ NamedBy blocked (stripHostPort host)) ↔
      RespelledUnblocked security host := by
  have hmatches := hostMatches_of_validateRequest h hhost
  constructor
  · intro hnot blocked hblocked hdiffer hsuffix
    exact hnot blocked hblocked ((namedBy_of_differ hdiffer).2 hsuffix)
  · intro hrespelled blocked hblocked hnamed
    by_cases hsame : hasRootDot blocked = hasRootDot (stripHostPort host)
    -- spelled alike, the name is what was compared
    · have hsuffix := (namedBy_of_same hsame).1 hnamed
      exact absurd ((hostMatches_eq_ok (hmatches blocked hblocked)).2 hsuffix) (by simp)
    · exact hrespelled blocked hblocked hsame ((namedBy_of_differ hsame).1 hnamed)

/-- A request for a page of this host. -/
def pageRequest (host : Str) : Request :=
  { method := "GET".toList
    uri :=
      { scheme := some "http".toList
        authority := some host
        text := "http://".toList ++ host ++ "/".toList }
    headers := [] }

def blocking (names : List Str) : SecurityConfig :=
  { Config.default.security with blockedHosts := names }

theorem notNamed_other :
    validateRequest (blocking ["example.com".toList]) (pageRequest "example.org.".toList) = .ok () ∧
      ∀ blocked ∈ (blocking ["example.com".toList]).blockedHosts,
        ¬ NamedBy blocked (stripHostPort "example.org.".toList) := by
  refine ⟨by decide +kernel, ?_⟩
  exact (@notNamed_iff (blocking ["example.com".toList]) (pageRequest "example.org.".toList) _
    (by decide +kernel) (by decide +kernel)).2 (by unfold RespelledUnblocked; decide +kernel)

/-- With the dot of the root behind it, a blocked host is not blocked. -/
theorem not_notNamed_rootDot :
    ¬ ∀ (security : SecurityConfig) (req : Request) (host : Str),
      (∀ blocked ∈ security.blockedHosts, blocked ≠ []) →
      validateRequest security req = .ok () → requestHost req = some host →
      ∀ blocked ∈ security.blockedHosts, ¬ NamedBy blocked (stripHostPort host) := by
  intro h
  have hnot := h (blocking ["example.com".toList]) (pageRequest "example.com.".toList)
    "example.com.".toList (by decide) (by decide +kernel) (by decide +kernel)
    "example.com".toList (by decide)
  exact hnot (by unfold NamedBy; decide +kernel)

end Proxy
end Squiddish
