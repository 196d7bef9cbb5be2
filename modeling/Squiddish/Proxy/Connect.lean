import Squiddish.Proxy.Validate

/-!
# Connect — the target of a CONNECT request

A CONNECT request is authorised by `Uri::host` and dialled at what `parse_connect_uri` reads from
the same authority.  `dialsJudgedHost_iff` says exactly on which authorities the two readings
agree: a host alone, or a host, one colon and a port.
-/

namespace Squiddish
namespace Proxy

open Lib

/-! ## The code -/

/-- The port text of a target, as an unsigned 16-bit number. -/
def parsePort (portStr : Str) : Outcome Nat :=
  match parseUnsigned 16 portStr with
  | some port => .ok port
  | none => .error (.error (.invalidUri "Invalid port".toList))

/-- The body of `parse_connect_uri`, from the authority on. -/
def parseHostPort : Str → Outcome (Str × Nat)
  | '[' :: rest =>
      match splitOnce ']' rest with
      | some (ipv6, afterBracket) => do
          let port ← match afterBracket with
            | ':' :: portStr => parsePort portStr
            | _ => .ok 443
          return ('[' :: (ipv6 ++ [']']), port)
      | none => .error (.error (.invalidUri "Malformed IPv6 address".toList))
  | hostPort =>
      match rsplitOnce ':' hostPort with
      | some (host, portStr) => do
          let port ← parsePort portStr
          return (host, port)
      | none => .ok (hostPort, 443)

/-- `parse_connect_uri`. -/
def parseConnectUri (uri : Uri) : Outcome (Str × Nat) :=
  match uri.authority with
  | some authority => parseHostPort authority
  | none => .error (.error (.invalidUri "Missing authority in CONNECT".toList))

/-- The address `handle_connect` hands to `TcpStream::connect`. -/
def connectTarget (security : SecurityConfig) (req : Request) : Outcome Str := do
  validateRequest security req
  let (host, port) ← parseConnectUri req.uri
  if security.strictHttps ∧ port ≠ 443 then
    throw (.error (.tunnel
      ("Only port 443 allowed for CONNECT, got ".toList ++ (toString port).toList)))
  return host ++ ':' :: (toString port).toList

/-! ## What the authority says -/

/-- A host without enclosing brackets. -/
def unbracket (host : Str) : Str :=
  match host with
  | '[' :: rest => if rest.getLast? = some ']' then rest.dropLast else host
  | _ => host

/-- The text after the host, where the port is written. -/
def portText (authority : Str) : Str :=
  (afterLast '@' authority).drop (authorityHost authority).length

/-- `host` is the host of the authority up to brackets, and `port` is the port written after it,
or 443 when nothing is written. -/
def Authorised (authority host : Str) (port : Nat) : Prop :=
  unbracket host = unbracket (authorityHost authority) ∧
    ((portText authority = [] ∧ port = 443) ∨
      ∃ t, portText authority = ':' :: t ∧ parseUnsigned 16 t = some port)

/-- No user information, and nothing but the host or the host, a colon and a port text. -/
def HostAndPort (authority : Str) : Prop :=
  '@' ∉ authority ∧
    (authority = authorityHost authority ∨
      ∃ t, authority = authorityHost authority ++ ':' :: t ∧ ':' ∉ t)

/-- A bracketed text in the user information that happens to repeat the host after the `@`,
with the default port. -/
def RepeatsHost (authority : Str) : Prop :=
  '@' ∈ authority ∧
    ∃ x junk, authority = '[' :: (x ++ ']' :: junk) ∧ ']' ∉ x ∧ junk.head? ≠ some ':' ∧
      x = unbracket (authorityHost authority) ∧
      (portText authority = [] ∨ ∃ t, portText authority = ':' :: t ∧ parseUnsigned 16 t = some 443)

/-! ## The four shapes `parse_connect_uri` accepts -/

inductive Reads : Str → Str → Nat → Prop
  | bracketPort {x t : Str} {port : Nat} :
      ']' ∉ x → parseUnsigned 16 t = some port →
      Reads ('[' :: (x ++ ']' :: ':' :: t)) ('[' :: (x ++ [']'])) port
  | bracketAny {x junk : Str} :
      ']' ∉ x → junk.head? ≠ some ':' →
      Reads ('[' :: (x ++ ']' :: junk)) ('[' :: (x ++ [']'])) 443
  | hostPort {host t : Str} {port : Nat} :
      (host ++ ':' :: t).head? ≠ some '[' → ':' ∉ t → parseUnsigned 16 t = some port →
      Reads (host ++ ':' :: t) host port
  | hostOnly {host : Str} :
      host.head? ≠ some '[' → ':' ∉ host → Reads host host 443

theorem parsePort_eq_ok {t : Str} {port : Nat} :
    parsePort t = .ok port ↔ parseUnsigned 16 t = some port := by
  cases h : parseUnsigned 16 t with
  | none =>
      simp [parsePort, h]
  | some n =>
      simp [parsePort, h]

theorem reads_of_bracket {rest host : Str} {port : Nat}
    (h : parseHostPort ('[' :: rest) = .ok (host, port)) : Reads ('[' :: rest) host port := by
  cases hs : splitOnce ']' rest with
  | none =>
      simp [parseHostPort, hs] at h
  | some p =>
      rcases p with ⟨x, after⟩
      rcases splitOnce_eq_some.1 hs with ⟨rfl, hx⟩
      rcases after with _ | ⟨c, t⟩
      · have hok : '[' :: (x ++ [']']) = host ∧ 443 = port := by
          simpa [parseHostPort, hs, bind, Except.bind, pure, Except.pure] using h
        rcases hok with ⟨rfl, rfl⟩
        exact .bracketAny hx (by simp)
      · by_cases hc : c = ':'
        · subst hc
          cases hp : parsePort t with
          | error e =>
              simp [parseHostPort, hs, hp, bind, Except.bind] at h
          | ok n =>
              have hok : '[' :: (x ++ [']']) = host ∧ n = port := by
                simpa [parseHostPort, hs, hp, bind, Except.bind, pure, Except.pure] using h
              rcases hok with ⟨rfl, rfl⟩
              exact .bracketPort hx (parsePort_eq_ok.1 hp)
        · have hok : '[' :: (x ++ [']']) = host ∧ 443 = port := by
            simpa [parseHostPort, hs, hc, bind, Except.bind, pure, Except.pure] using h
          rcases hok with ⟨rfl, rfl⟩
          exact .bracketAny hx (by simpa using hc)

theorem parseHostPort_of_head {a : Str} (ha : a.head? ≠ some '[') :
    parseHostPort a =
      match rsplitOnce ':' a with
      | some (host, portStr) => do
          let port ← parsePort portStr
          return (host, port)
      | none => .ok (a, 443) := by
  rcases a with _ | ⟨c, a⟩
  · rfl
  · have hc : ¬ c = '[' := by simpa using ha
    simp [parseHostPort, hc]

theorem reads_of_head {a host : Str} {port : Nat} (ha : a.head? ≠ some '[')
    (h : parseHostPort a = .ok (host, port)) : Reads a host port := by
  rw [parseHostPort_of_head ha] at h
  cases hs : rsplitOnce ':' a with
  | none =>
      have hok : a = host ∧ 443 = port := by
        simpa [hs] using h
      rcases hok with ⟨rfl, rfl⟩
      exact .hostOnly ha (rsplitOnce_eq_none.1 hs)
  | some p =>
      rcases p with ⟨x, t⟩
      rcases rsplitOnce_eq_some.1 hs with ⟨rfl, ht⟩
      cases hp : parsePort t with
      | error e =>
          simp [hs, hp, bind, Except.bind] at h
      | ok n =>
          have hok : x = host ∧ n = port := by
            simpa [hs, hp, bind, Except.bind, pure, Except.pure] using h
          rcases hok with ⟨rfl, rfl⟩
          exact .hostPort ha ht (parsePort_eq_ok.1 hp)

theorem reads_of_parseHostPort {a host : Str} {port : Nat}
    (h : parseHostPort a = .ok (host, port)) : Reads a host port := by
  rcases a with _ | ⟨c, rest⟩
  · exact reads_of_head (by simp) h
  · by_cases hc : c = '['
    · subst hc
      exact reads_of_bracket h
    · exact reads_of_head (by simpa using hc) h

/-! ## What `Uri::host` gives on each shape -/

theorem notMem_of_parseUnsigned {bits n : Nat} {t : Str} {c : Char}
    (h : parseUnsigned bits t = some n) (hplus : c ≠ '+') (hdigit : c.isDigit = false) : c ∉ t := by
  intro hc
  rcases mem_of_parseUnsigned h hc with hc' | hc'
  · exact hplus hc'
  · simp [hdigit] at hc'

theorem unbracket_bracket (x : Str) : unbracket ('[' :: (x ++ [']'])) = x := by
  simp [unbracket]

theorem unbracket_of_head {x : Str} (h : x.head? ≠ some '[') : unbracket x = x := by
  rcases x with _ | ⟨c, x⟩
  · rfl
  · have hc : ¬ c = '[' := by simpa using h
    simp [unbracket, hc]

theorem unbracket_subset (x : Str) : unbracket x ⊆ x := by
  unfold unbracket
  split
  · rename_i rest
    split
    · exact fun c hc => List.mem_cons_of_mem _ (List.dropLast_subset _ hc)
    · exact List.Subset.refl _
  · exact List.Subset.refl _

/-- The host never holds the `@` that ends the user information. -/
theorem at_notMem_authorityHost (a : Str) : '@' ∉ authorityHost a := by
  have hlast : '@' ∉ afterLast '@' a := notMem_afterLast '@' a
  unfold authorityHost
  split
  · rename_i rest heq
    rw [heq] at hlast
    have hrest : '@' ∉ rest := fun h => hlast (List.mem_cons_of_mem _ h)
    have hbefore : '@' ∉ beforeFirst ']' rest := fun h => hrest (beforeFirst_subset _ _ h)
    split
    · simp [hbefore]
    · simp [hbefore]
  · exact fun h => hlast (beforeFirst_subset _ _ h)

theorem authorityHost_bracket {x junk : Str} (hx : ']' ∉ x)
    (hat : '@' ∉ '[' :: (x ++ ']' :: junk)) :
    authorityHost ('[' :: (x ++ ']' :: junk)) = '[' :: (x ++ [']']) := by
  have hmem : ']' ∈ x ++ ']' :: junk := by simp
  simp [authorityHost, afterLast_of_notMem hat, beforeFirst_append hx]

theorem authorityHost_of_head {a : Str} (ha : a.head? ≠ some '[') (hat : '@' ∉ a) :
    authorityHost a = beforeFirst ':' a := by
  rcases a with _ | ⟨c, a⟩
  · rfl
  · have hc : ¬ c = '[' := by simpa using ha
    simp [authorityHost, afterLast_of_notMem hat, hc]

theorem portText_of_noAt {a : Str} (hat : '@' ∉ a) :
    portText a = a.drop (authorityHost a).length := by
  simp [portText, afterLast_of_notMem hat]

/-! ## When the two readings agree -/

/-- A host read out of the user information is never the authorised one. -/
theorem not_authorised_of_at {a host : Str} {port : Nat} (h : '@' ∈ unbracket host) :
    ¬ Authorised a host port := by
  rintro ⟨hhost, _⟩
  rw [hhost] at h
  exact at_notMem_authorityHost a (unbracket_subset _ h)

theorem hostAndPort_of_noAt_port {a t : Str} {port : Nat} (hat : '@' ∉ a)
    (ha : a = authorityHost a ++ ':' :: t) (ht : parseUnsigned 16 t = some port) :
    HostAndPort a ∧ portText a = ':' :: t := by
  refine ⟨⟨hat, Or.inr ⟨t, ha, notMem_of_parseUnsigned ht (by decide) (by decide)⟩⟩, ?_⟩
  have hdrop : (authorityHost a ++ ':' :: t).drop (authorityHost a).length = ':' :: t :=
    List.drop_left
  rw [portText_of_noAt hat]
  rwa [← ha] at hdrop

/-- The first `]` ends the bracketed text. -/
theorem bracket_unique {x y junk junk' : Str} (hx : ']' ∉ x) (hy : ']' ∉ y)
    (h : '[' :: (x ++ ']' :: junk) = '[' :: (y ++ ']' :: junk')) : x = y ∧ junk = junk' := by
  have hxs : splitOnce ']' (x ++ ']' :: junk) = some (x, junk) := splitOnce_append hx
  have hys : splitOnce ']' (y ++ ']' :: junk') = some (y, junk') := splitOnce_append hy
  have htail : x ++ ']' :: junk = y ++ ']' :: junk' := by
    simpa using congrArg List.tail h
  rw [htail, hys] at hxs
  have hpair : y = x ∧ junk' = junk := by simpa using hxs
  exact ⟨hpair.1.symm, hpair.2.symm⟩

theorem authorised_iff_of_bracketPort {x t : Str} {port : Nat} (hx : ']' ∉ x)
    (ht : parseUnsigned 16 t = some port) :
    Authorised ('[' :: (x ++ ']' :: ':' :: t)) ('[' :: (x ++ [']'])) port ↔
      HostAndPort ('[' :: (x ++ ']' :: ':' :: t)) ∨
        RepeatsHost ('[' :: (x ++ ']' :: ':' :: t)) := by
  by_cases hat : '@' ∈ '[' :: (x ++ ']' :: ':' :: t)
  · have hatt : '@' ∉ t := notMem_of_parseUnsigned ht (by decide) (by decide)
    have hatx : '@' ∈ x := by simpa [hatt] using hat
    have hno : ¬ Authorised ('[' :: (x ++ ']' :: ':' :: t)) ('[' :: (x ++ [']'])) port :=
      not_authorised_of_at (by simpa [unbracket_bracket] using hatx)
    constructor
    · intro h
      exact absurd h hno
    · rintro (h | ⟨_, y, junk, heq, hy, hjunk, _⟩)
      · exact absurd hat h.1
      · rcases bracket_unique hx hy heq with ⟨_, rfl⟩
        simp at hjunk
  · have hhost : authorityHost ('[' :: (x ++ ']' :: ':' :: t)) = '[' :: (x ++ [']']) :=
      authorityHost_bracket hx hat
    have hform : '[' :: (x ++ ']' :: ':' :: t) =
        authorityHost ('[' :: (x ++ ']' :: ':' :: t)) ++ ':' :: t := by
      simp [hhost]
    rcases hostAndPort_of_noAt_port hat hform ht with ⟨hgood, hport⟩
    exact ⟨fun _ => Or.inl hgood, fun _ => ⟨by rw [hhost], Or.inr ⟨t, hport, ht⟩⟩⟩

theorem authorised_iff_of_bracketAny {x junk : Str} (hx : ']' ∉ x)
    (hjunk : junk.head? ≠ some ':') :
    Authorised ('[' :: (x ++ ']' :: junk)) ('[' :: (x ++ [']'])) 443 ↔
      HostAndPort ('[' :: (x ++ ']' :: junk)) ∨ RepeatsHost ('[' :: (x ++ ']' :: junk)) := by
  by_cases hat : '@' ∈ '[' :: (x ++ ']' :: junk)
  · constructor
    · rintro ⟨hhost, hport⟩
      rw [unbracket_bracket] at hhost
      refine Or.inr ⟨hat, x, junk, rfl, hx, hjunk, hhost, ?_⟩
      rcases hport with ⟨hnil, _⟩ | hsome
      · exact Or.inl hnil
      · exact Or.inr hsome
    · rintro (h | ⟨_, y, junk', heq, hy, _, hhost, hport⟩)
      · exact absurd hat h.1
      · rcases bracket_unique hx hy heq with ⟨rfl, rfl⟩
        refine ⟨by rw [unbracket_bracket]; exact hhost, ?_⟩
        rcases hport with hnil | hsome
        · exact Or.inl ⟨hnil, rfl⟩
        · exact Or.inr hsome
  · have hhost : authorityHost ('[' :: (x ++ ']' :: junk)) = '[' :: (x ++ [']']) :=
      authorityHost_bracket hx hat
    have hsplit : '[' :: (x ++ ']' :: junk) = ('[' :: (x ++ [']'])) ++ junk := by simp
    have htext : portText ('[' :: (x ++ ']' :: junk)) = junk := by
      calc
        portText ('[' :: (x ++ ']' :: junk)) =
            ('[' :: (x ++ ']' :: junk)).drop
              (authorityHost ('[' :: (x ++ ']' :: junk))).length := portText_of_noAt hat
        _ = (('[' :: (x ++ [']'])) ++ junk).drop ('[' :: (x ++ [']'])).length := by
              rw [hhost, hsplit]
        _ = junk := List.drop_left
    constructor
    -- what stands after the bracket is neither nothing nor a port, so the two readings part
    · rintro ⟨_, hport⟩
      rw [htext] at hport
      rcases hport with ⟨rfl, _⟩ | ⟨t, rfl, _⟩
      · exact Or.inl ⟨hat, Or.inl hhost.symm⟩
      · simp at hjunk
    · rintro (⟨_, heq | ⟨t, heq, _⟩⟩ | h)
      · have hnil : junk = [] := by
          rw [hhost, hsplit] at heq
          simpa using heq
        exact ⟨by rw [hhost], Or.inl ⟨by rw [htext, hnil], rfl⟩⟩
      · have hcolon : junk = ':' :: t := by
          rw [hhost, hsplit] at heq
          simpa using heq
        simp [hcolon] at hjunk
      · exact absurd h.1 hat

/-- Outside brackets the code splits at the last colon and the host ends at the first. -/
theorem authorised_iff_of_hostPort {host t : Str} {port : Nat}
    (hhead : (host ++ ':' :: t).head? ≠ some '[') (hcolon : ':' ∉ t)
    (ht : parseUnsigned 16 t = some port) :
    Authorised (host ++ ':' :: t) host port ↔
      HostAndPort (host ++ ':' :: t) ∨ RepeatsHost (host ++ ':' :: t) := by
  have hhost : host.head? ≠ some '[' := by
    rcases host with _ | ⟨c, host⟩
    · simp
    · simpa using hhead
  -- the authority does not begin with a bracket
  have hrepeat : ¬ RepeatsHost (host ++ ':' :: t) := by
    rintro ⟨_, x, junk, heq, _⟩
    simp [heq] at hhead
  by_cases hat : '@' ∈ host ++ ':' :: t
  · have hatt : '@' ∉ t := notMem_of_parseUnsigned ht (by decide) (by decide)
    have hath : '@' ∈ host := by simpa [hatt] using hat
    have hno : ¬ Authorised (host ++ ':' :: t) host port :=
      not_authorised_of_at (by simpa [unbracket_of_head hhost] using hath)
    exact ⟨fun h => absurd h hno,
      fun h => h.elim (fun h => absurd hat h.1) (fun h => absurd h hrepeat)⟩
  · have hauth : authorityHost (host ++ ':' :: t) = beforeFirst ':' (host ++ ':' :: t) :=
      authorityHost_of_head hhead hat
    by_cases hc : ':' ∈ host
    · -- The host read by the code holds a colon, the authorised one does not.
      have hne : ¬ Authorised (host ++ ':' :: t) host port := by
        rintro ⟨hsame, _⟩
        rw [unbracket_of_head hhost] at hsame
        rw [hsame, hauth] at hc
        exact notMem_beforeFirst ':' _ (unbracket_subset _ hc)
      refine ⟨fun h => absurd h hne, ?_⟩
      rintro (⟨_, heq | ⟨t', heq, ht'⟩⟩ | h)
      · have hmem : ':' ∈ host ++ ':' :: t := by simp
        rw [heq, hauth] at hmem
        exact absurd hmem (notMem_beforeFirst ':' _)
      -- the last colon splits the text in one way only
      · have hlast : rsplitOnce ':' (host ++ ':' :: t) = some (host, t) :=
          rsplitOnce_eq_some.2 ⟨rfl, hcolon⟩
        have hlast' : rsplitOnce ':' (host ++ ':' :: t) =
            some (authorityHost (host ++ ':' :: t), t') :=
          rsplitOnce_eq_some.2 ⟨heq, ht'⟩
        have hsame : host = authorityHost (host ++ ':' :: t) := by
          rw [hlast] at hlast'
          exact (by simpa using hlast' : host = _ ∧ t = t').1
        rw [hsame, hauth] at hc
        exact absurd hc (notMem_beforeFirst ':' _)
      · exact absurd h hrepeat
    · have hsame : authorityHost (host ++ ':' :: t) = host := by
        rw [hauth, beforeFirst_append hc]
      have hform : host ++ ':' :: t = authorityHost (host ++ ':' :: t) ++ ':' :: t := by
        rw [hsame]
      rcases hostAndPort_of_noAt_port hat hform ht with ⟨hgood, hport⟩
      exact ⟨fun _ => Or.inl hgood, fun _ => ⟨by rw [hsame], Or.inr ⟨t, hport, ht⟩⟩⟩

theorem authorised_iff_of_hostOnly {host : Str} (hhead : host.head? ≠ some '[')
    (hcolon : ':' ∉ host) :
    Authorised host host 443 ↔ HostAndPort host ∨ RepeatsHost host := by
  have hrepeat : ¬ RepeatsHost host := by
    rintro ⟨_, x, junk, heq, _⟩
    simp [heq] at hhead
  by_cases hat : '@' ∈ host
  · have hno : ¬ Authorised host host 443 :=
      not_authorised_of_at (by simpa [unbracket_of_head hhead] using hat)
    exact ⟨fun h => absurd h hno,
      fun h => h.elim (fun h => absurd hat h.1) (fun h => absurd h hrepeat)⟩
  · have hsame : authorityHost host = host := by
      rw [authorityHost_of_head hhead hat, beforeFirst_of_notMem hcolon]
    have htext : portText host = [] := by
      simp [portText_of_noAt hat, hsame]
    exact ⟨fun _ => Or.inl ⟨hat, Or.inl hsame.symm⟩,
      fun _ => ⟨by rw [hsame], Or.inl ⟨htext, rfl⟩⟩⟩

theorem authorised_iff_of_reads {a host : Str} {port : Nat} (h : Reads a host port) :
    Authorised a host port ↔ HostAndPort a ∨ RepeatsHost a := by
  cases h with
  | bracketPort hx ht =>
      exact authorised_iff_of_bracketPort hx ht
  | bracketAny hx hjunk =>
      exact authorised_iff_of_bracketAny hx hjunk
  | hostPort hhead hcolon ht =>
      exact authorised_iff_of_hostPort hhead hcolon ht
  | hostOnly hhead hcolon =>
      exact authorised_iff_of_hostOnly hhead hcolon

/-! ## CONNECT requests -/

/-- If the request passes the host checks and is dialled, it is dialled at the host the checks
judged, on the port written after that host. -/
def DialsJudgedHost (security : SecurityConfig) (req : Request) : Prop :=
  validateRequest security req = .ok () →
    ∀ host port, parseConnectUri req.uri = .ok (host, port) →
      ∃ authority judged, req.uri.authority = some authority ∧ requestHost req = some judged ∧
        unbracket host = unbracket judged ∧
        ((portText authority = [] ∧ port = 443) ∨
          ∃ t, portText authority = ':' :: t ∧ parseUnsigned 16 t = some port)

/-- A request that passes both checks is dialled as it was judged exactly when its authority is
a host, or a host, one colon and a port, without user information (or repeats its host in
brackets before the `@`). -/
theorem dialsJudgedHost_iff {security : SecurityConfig} {req : Request}
    {authority host : Str} {port : Nat} (hauth : req.uri.authority = some authority)
    (hvalid : validateRequest security req = .ok ())
    (hparse : parseConnectUri req.uri = .ok (host, port)) :
    DialsJudgedHost security req ↔ HostAndPort authority ∨ RepeatsHost authority := by
  have hread : Reads authority host port :=
    reads_of_parseHostPort (by simpa [parseConnectUri, hauth] using hparse)
  have hjudged : requestHost req = some (authorityHost authority) := by
    simp [requestHost, Uri.host, hauth]
  rw [← authorised_iff_of_reads hread]
  constructor
  · intro h
    rcases h hvalid host port hparse with ⟨a, judged, ha, hj, hhost, hport⟩
    have haa : authority = a := by simpa [hauth] using ha
    have hjj : authorityHost authority = judged := by simpa [hjudged] using hj
    subst haa
    subst hjj
    exact ⟨hhost, hport⟩
  · rintro ⟨hhost, hport⟩ _ host' port' hparse'
    have hsame : host = host' ∧ port = port' := by simpa [hparse] using hparse'
    rcases hsame with ⟨rfl, rfl⟩
    exact ⟨authority, _, hauth, hjudged, hhost, hport⟩

/-- An allow list with one host, which is not the loopback address. -/
def oneHostAllowed : SecurityConfig :=
  { Config.default.security with allowedHosts := ["allowed.example".toList] }

def connectRequest (authority : Str) : Request :=
  { method := "CONNECT".toList
    uri := { scheme := none, authority := some authority, text := authority }
    headers := [] }

theorem dialsJudgedHost_iff_plain :
    DialsJudgedHost oneHostAllowed (connectRequest "allowed.example:443".toList) ↔
      HostAndPort "allowed.example:443".toList ∨ RepeatsHost "allowed.example:443".toList :=
  @dialsJudgedHost_iff _ _ _ "allowed.example".toList 443 rfl (by decide) (by decide)

example : connectTarget oneHostAllowed (connectRequest "[::1]@allowed.example:443".toList) =
    .ok "[::1]:443".toList := by decide

/-- The text in brackets is dialled, the host after the `@` is what the allow list sees. -/
theorem not_dialsJudgedHost_userinfo :
    ¬ ∀ (security : SecurityConfig) (req : Request),
      req.method = "CONNECT".toList → DialsJudgedHost security req := by
  intro h
  have hreq := h oneHostAllowed (connectRequest "[::1]@allowed.example:443".toList) (by decide)
  rcases hreq (by decide) "[::1]".toList 443 (by decide) with ⟨authority, judged, _, hj, hhost, _⟩
  have hjudged : judged = "allowed.example".toList := by
    have hr : requestHost (connectRequest "[::1]@allowed.example:443".toList) =
        some "allowed.example".toList := by decide
    rw [hr] at hj
    simpa using hj.symm
  rw [hjudged] at hhost
  exact absurd hhost (by decide)

end Proxy
end Squiddish
