import Squiddish.Lib.Infix
import Squiddish.Proxy.Prohibitions

/-!
# Apt — what the classifiers of `apt.rs` find in a URI

The three classifiers search the whole text of a URI.  A URI is taken in its parts, and each mark
is placed in the part where it is found; what the classifiers say about the host, the path and
the lifetime is read off that.
-/

namespace Squiddish
namespace Proxy

open Lib

/-! ## URIs in absolute form -/

/-- The parts of a URI with a scheme, the form `validate_request` asks for. -/
structure AbsoluteUri where
  scheme : Str
  authority : Str
  path : Str
  query : Option Str
  scheme_colon : ':' ∉ scheme
  scheme_slash : '/' ∉ scheme
  scheme_mark : '?' ∉ scheme
  authority_slash : '/' ∉ authority
  authority_mark : '?' ∉ authority
  path_rooted : ∃ segments, path = '/' :: segments
  path_mark : '?' ∉ path

namespace AbsoluteUri

/-- The part of the text before the query. -/
def resource (u : AbsoluteUri) : Str :=
  u.scheme ++ "://".toList ++ u.authority ++ u.path

/-- `Uri::to_string`. -/
def text (u : AbsoluteUri) : Str :=
  match u.query with
  | none => u.resource
  | some query => u.resource ++ '?' :: query

def toUri (u : AbsoluteUri) : Uri :=
  { scheme := some u.scheme, authority := some u.authority, text := u.text }

def host (u : AbsoluteUri) : Str :=
  authorityHost u.authority

/-- The last segment of the path. -/
def file (u : AbsoluteUri) : Str :=
  afterLast '/' u.path

theorem resource_eq (u : AbsoluteUri) :
    u.resource = u.scheme ++ ':' :: '/' :: '/' :: (u.authority ++ u.path) := by
  simp [resource]

/-! ## Where a mark stands -/

variable {u : AbsoluteUri} {p : Str}

/-- A mark without `?` is found before the query or in it. -/
theorem infix_text (hp : '?' ∉ p) :
    p <:+: u.text ↔ p <:+: u.resource ∨ ∃ query ∈ u.query, p <:+: query := by
  cases hq : u.query with
  | none =>
      simp [text, hq]
  | some query =>
      simp [text, hq, infix_append_cons_iff hp]

/-- The end of the text is that of the query, when there is one. -/
theorem suffix_text (hp : '?' ∉ p) :
    p <:+ u.text ↔ (u.query = none ∧ p <:+ u.resource) ∨ ∃ query ∈ u.query, p <:+ query := by
  cases hq : u.query with
  | none =>
      simp [text, hq]
  | some query =>
      simp [text, hq, suffix_append_cons_iff hp]

/-- A host after `://`: at the start of the authority, or further on. -/
theorem host_infix_resource {h : Str} (hh : '/' ∉ h) :
    "://".toList ++ h <:+: u.resource ↔
      h <+: u.authority ∨ "://".toList ++ h <:+: u.authority ++ u.path := by
  rcases u.path_rooted with ⟨segments, hpath⟩
  have hslashes : ':' ∉ ['/', '/'] := by
    decide
  have hlater : ':' :: ('/' :: '/' :: h) <:+: ['/', '/'] ++ (u.authority ++ u.path) ↔
      ':' :: ('/' :: '/' :: h) <:+: u.authority ++ u.path :=
    cons_infix_append_iff hslashes
  have hfirst : h <+: u.authority ++ u.path ↔ h <+: u.authority := by
    rw [hpath, prefix_append_cons_iff hh]
  have hmark : "://".toList ++ h = ':' :: ('/' :: '/' :: h) := by
    simp
  rw [hmark, resource_eq, cons_infix_append_iff u.scheme_colon, List.infix_cons_iff,
    List.prefix_cons_inj, List.prefix_cons_inj, List.prefix_cons_inj, hfirst]
  exact or_congr Iff.rfl hlater

/-- A directory between slashes: in the path, or the authority is its name. -/
theorem dir_infix_resource {d : Str} (hd : '/' ∉ d) (hne : d ≠ []) :
    '/' :: (d ++ ['/']) <:+: u.resource ↔
      u.authority = d ∨ '/' :: (d ++ ['/']) <:+: u.path := by
  rcases u.path_rooted with ⟨segments, hpath⟩
  have hscheme : '/' ∉ u.scheme ++ [':'] := by
    simp [u.scheme_slash]
  have hresource : u.resource = (u.scheme ++ [':']) ++ '/' :: '/' :: (u.authority ++ u.path) := by
    simp [resource_eq]
  have hfirst : ¬ d ++ ['/'] <+: '/' :: (u.authority ++ u.path) := by
    intro hpre
    have hnil := (append_singleton_prefix_iff (a := []) hd List.not_mem_nil).1 hpre
    exact hne hnil
  have hsecond : d ++ ['/'] <+: u.authority ++ u.path ↔ u.authority = d := by
    rw [hpath, append_singleton_prefix_iff hd u.authority_slash]
    exact eq_comm
  rw [hresource, cons_infix_append_iff hscheme, List.infix_cons_iff, List.prefix_cons_inj,
    or_iff_right hfirst, List.infix_cons_iff, List.prefix_cons_inj, hsecond,
    cons_infix_append_iff u.authority_slash]

/-- A mark with no separator lies in one of the parts. -/
theorem file_infix_resource (hcolon : ':' ∉ p) (hslash : '/' ∉ p) :
    p <:+: u.resource ↔ p <:+: u.scheme ∨ p <:+: u.authority ∨ p <:+: u.path := by
  rcases u.path_rooted with ⟨segments, hpath⟩
  rw [resource_eq, infix_append_cons_iff hcolon, infix_cons_of_notMem hslash,
    infix_cons_of_notMem hslash, hpath, infix_append_cons_iff hslash, infix_cons_of_notMem hslash]

/-- Before the query the text ends like the path. -/
theorem suffix_resource (hslash : '/' ∉ p) : p <:+ u.resource ↔ p <:+ u.path := by
  rcases u.path_rooted with ⟨segments, hpath⟩
  have hroot : p <:+ '/' :: segments ↔ p <:+ segments :=
    suffix_append_cons_iff (a := []) hslash
  rw [resource, hpath, suffix_append_cons_iff hslash, hroot]

theorem cons_suffix_resource (hslash : '/' ∉ p) :
    '/' :: p <:+ u.resource ↔ '/' :: p <:+ u.path := by
  rcases u.path_rooted with ⟨segments, hpath⟩
  rw [resource, hpath, cons_suffix_append_iff hslash]

end AbsoluteUri

/-! ## The marks of the classifiers -/

/-- The listed repository hosts. -/
def aptHosts : List Str :=
  ["deb.debian.org".toList, "archive.ubuntu.com".toList, "security.ubuntu.com".toList,
    "security.debian.org".toList, "ppa.launchpad.net".toList]

def aptDirs : List Str :=
  ["dists".toList, "pool".toList]

/-- A directory as it is searched for. -/
def dirMark (d : Str) : Str :=
  '/' :: (d ++ ['/'])

def aptFiles : List Str :=
  ["Packages.gz".toList, "Packages.xz".toList, "Packages.bz2".toList, "Release.gpg".toList,
    "InRelease".toList]

def listPatterns : List Str :=
  ["Packages.gz".toList, "Packages.xz".toList, "Packages.bz2".toList, "InRelease".toList]

/-- The release files of a directory under `/dists/`. -/
def releaseFiles : List Str :=
  ["Release".toList, "Release.gpg".toList]

theorem aptHosts_plain :
    ∀ h ∈ aptHosts, '/' ∉ h ∧ '?' ∉ h ∧ ':' ∉ h ∧ '@' ∉ h ∧ '[' ∉ h :=
  forall_mem_of_all (by decide)

theorem aptDirs_plain : ∀ d ∈ aptDirs, '/' ∉ d ∧ '?' ∉ d ∧ d ≠ [] :=
  forall_mem_of_all (by decide)

theorem aptFiles_plain : ∀ f ∈ aptFiles, '/' ∉ f ∧ '?' ∉ f ∧ ':' ∉ f :=
  forall_mem_of_all (by decide)

theorem mem_aptFiles_of_mem_listPatterns : ∀ f ∈ listPatterns, f ∈ aptFiles :=
  forall_mem_of_all (by decide)

theorem isAptRequest_iff {s : Str} :
    isAptRequest s = true ↔
      (∃ h ∈ aptHosts, "://".toList ++ h <:+: s) ∨ (∃ d ∈ aptDirs, dirMark d <:+: s) ∨
        (∃ f ∈ aptFiles, f <:+: s) ∨ ".deb".toList <:+ s := by
  have hhosts : aptHosts.map ("://".toList ++ ·) =
      ["://deb.debian.org".toList, "://archive.ubuntu.com".toList,
        "://security.ubuntu.com".toList, "://security.debian.org".toList,
        "://ppa.launchpad.net".toList] := by
    decide
  have hdirs : aptDirs.map dirMark = ["/dists/".toList, "/pool/".toList] := by
    decide
  unfold isAptRequest
  rw [← hhosts, ← hdirs, Bool.or_eq_true, Bool.or_eq_true, Bool.or_eq_true, or_assoc, or_assoc]
  simp only [List.any_map, List.any_eq_true, Function.comp_apply, contains, endsWith,
    decide_eq_true_eq]
  rfl

/-- A mark that `is_apt_request` sees in the path. -/
inductive SeenMark (u : AbsoluteUri) : Prop
  | dir {d : Str} : d ∈ aptDirs → dirMark d <:+: u.path → SeenMark u
  | file {f : Str} : f ∈ aptFiles → f <:+: u.path → SeenMark u
  | deb : u.query = none → ".deb".toList <:+ u.path → SeenMark u

/-- A mark that it sees elsewhere: a listed name that is not the host, and a mark of a path that
is not in the path. -/
inductive StrayMark (u : AbsoluteUri) : Prop
  | hostStart {h : Str} : h ∈ aptHosts → h <+: u.authority → StrayMark u
  | hostLater {h : Str} : h ∈ aptHosts → "://".toList ++ h <:+: u.authority ++ u.path →
      StrayMark u
  | hostQuery {h query : Str} : h ∈ aptHosts → u.query = some query →
      "://".toList ++ h <:+: query → StrayMark u
  | dirAuthority : u.authority ∈ aptDirs → StrayMark u
  | dirQuery {d query : Str} : d ∈ aptDirs → u.query = some query → dirMark d <:+: query →
      StrayMark u
  | fileScheme {f : Str} : f ∈ aptFiles → f <:+: u.scheme → StrayMark u
  | fileAuthority {f : Str} : f ∈ aptFiles → f <:+: u.authority → StrayMark u
  | fileQuery {f query : Str} : f ∈ aptFiles → u.query = some query → f <:+: query → StrayMark u
  | debQuery {query : Str} : u.query = some query → ".deb".toList <:+ query → StrayMark u

section Marks

variable {u : AbsoluteUri}

theorem host_infix_text {h : Str} (hh : h ∈ aptHosts) :
    "://".toList ++ h <:+: u.text ↔
      h <+: u.authority ∨ "://".toList ++ h <:+: u.authority ++ u.path ∨
        ∃ query ∈ u.query, "://".toList ++ h <:+: query := by
  rcases aptHosts_plain h hh with ⟨hslash, hmark, -⟩
  have hplain : '?' ∉ "://".toList ++ h := by
    simp [hmark]
  rw [AbsoluteUri.infix_text hplain, AbsoluteUri.host_infix_resource hslash, or_assoc]

theorem dir_infix_text {d : Str} (hd : d ∈ aptDirs) :
    dirMark d <:+: u.text ↔
      u.authority = d ∨ dirMark d <:+: u.path ∨ ∃ query ∈ u.query, dirMark d <:+: query := by
  rcases aptDirs_plain d hd with ⟨hslash, hmark, hne⟩
  have hplain : '?' ∉ dirMark d := by
    simp [dirMark, hmark]
  rw [AbsoluteUri.infix_text hplain]
  unfold dirMark
  rw [AbsoluteUri.dir_infix_resource hslash hne, or_assoc]

theorem file_infix_text {f : Str} (hf : f ∈ aptFiles) :
    f <:+: u.text ↔
      f <:+: u.scheme ∨ f <:+: u.authority ∨ f <:+: u.path ∨ ∃ query ∈ u.query, f <:+: query := by
  rcases aptFiles_plain f hf with ⟨hslash, hmark, hcolon⟩
  rw [AbsoluteUri.infix_text hmark, AbsoluteUri.file_infix_resource hcolon hslash, or_assoc,
    or_assoc]

theorem deb_suffix_text :
    ".deb".toList <:+ u.text ↔
      (u.query = none ∧ ".deb".toList <:+ u.path) ∨
        ∃ query ∈ u.query, ".deb".toList <:+ query := by
  rw [AbsoluteUri.suffix_text (by decide), AbsoluteUri.suffix_resource (by decide)]

/-- What `is_apt_request` answers to, part by part. -/
theorem isAptRequest_text : isAptRequest u.text = true ↔ SeenMark u ∨ StrayMark u := by
  rw [isAptRequest_iff]
  constructor
  · rintro (⟨h, hh, hin⟩ | ⟨d, hd, hin⟩ | ⟨f, hf, hin⟩ | hdeb)
    · rcases (host_infix_text hh).1 hin with hstart | hlater | ⟨query, hq, hquery⟩
      · exact Or.inr (.hostStart hh hstart)
      · exact Or.inr (.hostLater hh hlater)
      · exact Or.inr (.hostQuery hh hq hquery)
    · rcases (dir_infix_text hd).1 hin with rfl | hpath | ⟨query, hq, hquery⟩
      · exact Or.inr (.dirAuthority hd)
      · exact Or.inl (.dir hd hpath)
      · exact Or.inr (.dirQuery hd hq hquery)
    · rcases (file_infix_text hf).1 hin with hscheme | hauth | hpath | ⟨query, hq, hquery⟩
      · exact Or.inr (.fileScheme hf hscheme)
      · exact Or.inr (.fileAuthority hf hauth)
      · exact Or.inl (.file hf hpath)
      · exact Or.inr (.fileQuery hf hq hquery)
    · rcases deb_suffix_text.1 hdeb with ⟨hnone, hpath⟩ | ⟨query, hq, hquery⟩
      · exact Or.inl (.deb hnone hpath)
      · exact Or.inr (.debQuery hq hquery)
  · rintro (hseen | hstray)
    · cases hseen with
      | dir hd hin =>
          exact Or.inr (Or.inl ⟨_, hd, (dir_infix_text hd).2 (Or.inr (Or.inl hin))⟩)
      | file hf hin =>
          exact Or.inr (Or.inr (Or.inl
            ⟨_, hf, (file_infix_text hf).2 (Or.inr (Or.inr (Or.inl hin)))⟩))
      | deb hnone hin =>
          exact Or.inr (Or.inr (Or.inr (deb_suffix_text.2 (Or.inl ⟨hnone, hin⟩))))
    · cases hstray with
      | hostStart hh hin =>
          exact Or.inl ⟨_, hh, (host_infix_text hh).2 (Or.inl hin)⟩
      | hostLater hh hin =>
          exact Or.inl ⟨_, hh, (host_infix_text hh).2 (Or.inr (Or.inl hin))⟩
      | hostQuery hh hq hin =>
          exact Or.inl ⟨_, hh, (host_infix_text hh).2 (Or.inr (Or.inr ⟨_, hq, hin⟩))⟩
      | dirAuthority hd =>
          exact Or.inr (Or.inl ⟨_, hd, (dir_infix_text hd).2 (Or.inl rfl)⟩)
      | dirQuery hd hq hin =>
          exact Or.inr (Or.inl ⟨_, hd, (dir_infix_text hd).2 (Or.inr (Or.inr ⟨_, hq, hin⟩))⟩)
      | fileScheme hf hin =>
          exact Or.inr (Or.inr (Or.inl ⟨_, hf, (file_infix_text hf).2 (Or.inl hin)⟩))
      | fileAuthority hf hin =>
          exact Or.inr (Or.inr (Or.inl ⟨_, hf, (file_infix_text hf).2 (Or.inr (Or.inl hin))⟩))
      | fileQuery hf hq hin =>
          exact Or.inr (Or.inr (Or.inl
            ⟨_, hf, (file_infix_text hf).2 (Or.inr (Or.inr (Or.inr ⟨_, hq, hin⟩)))⟩))
      | debQuery hq hin =>
          exact Or.inr (Or.inr (Or.inr (deb_suffix_text.2 (Or.inr ⟨_, hq, hin⟩))))

end Marks

/-! ## Hosts -/

/-- The marks of APT in a path. -/
def PathMark (path : Str) : Prop :=
  (∃ d ∈ aptDirs, dirMark d <:+: path) ∨ (∃ f ∈ aptFiles, f <:+: path) ∨ ".deb".toList <:+ path

/-- The lifetime is the one that is given when APT is not treated at all. -/
def ByHeaders (uri : Str) : Prop :=
  ∀ (parseHttpDate : Str → Option Nat) (config : Config) (now : Nat) (headers : HeaderMap),
    storedTtl parseHttpDate config now uri headers =
      storedTtl parseHttpDate { config with apt := { config.apt with enabled := false } } now uri
        headers

/-- Only the listed hosts are those of APT. -/
structure HostsExact (u : AbsoluteUri) : Prop where
  other : u.host ∉ aptHosts → ¬ PathMark u.path →
    isAptRequest u.text = false ∧ ByHeaders u.text
  listed : u.host ∈ aptHosts → isAptRequest u.text = true

/-- No mark strays; behind user information a listed host needs one. -/
structure HostsPlain (u : AbsoluteUri) : Prop where
  other : u.host ∉ aptHosts → ¬ PathMark u.path → ¬ StrayMark u
  listed : u.host ∈ aptHosts → '@' ∈ u.authority → SeenMark u ∨ StrayMark u

theorem byHeaders_of_isAptRequest {uri : Str} (h : isAptRequest uri = false) : ByHeaders uri := by
  intro parseHttpDate config now headers
  simp [storedTtl, h]

theorem SeenMark.pathMark {u : AbsoluteUri} (h : SeenMark u) : PathMark u.path := by
  cases h with
  | dir hd hin =>
      exact Or.inl ⟨_, hd, hin⟩
  | file hf hin =>
      exact Or.inr (Or.inl ⟨_, hf, hin⟩)
  | deb hnone hin =>
      exact Or.inr (Or.inr hin)

/-- Without user information the authority starts with the host. -/
theorem host_isPrefix {u : AbsoluteUri} (hhost : u.host ∈ aptHosts) (hplain : '@' ∉ u.authority) :
    u.host <+: u.authority := by
  have hbracket := (aptHosts_plain _ hhost).2.2.2.2
  unfold AbsoluteUri.host authorityHost at hbracket ⊢
  rw [afterLast_of_notMem hplain] at hbracket ⊢
  split at hbracket
  · exact absurd List.mem_cons_self hbracket
  · exact beforeFirst_isPrefix ':' u.authority

theorem hostsExact_iff (u : AbsoluteUri) : HostsExact u ↔ HostsPlain u := by
  constructor
  · intro h
    refine ⟨fun hother hclean hstray => ?_, fun hlisted _ => isAptRequest_text.1 (h.listed hlisted)⟩
    have hapt := isAptRequest_text.2 (Or.inr hstray)
    rw [(h.other hother hclean).1] at hapt
    cases hapt
  · intro h
    constructor
    · intro hother hclean
      have hnot : isAptRequest u.text = false := by
        rw [Bool.eq_false_iff]
        intro hapt
        rcases isAptRequest_text.1 hapt with hseen | hstray
        · exact hclean hseen.pathMark
        · exact h.other hother hclean hstray
      exact ⟨hnot, byHeaders_of_isAptRequest hnot⟩
    · intro hlisted
      by_cases huser : '@' ∈ u.authority
      · exact isAptRequest_text.2 (h.listed hlisted huser)
      · exact isAptRequest_text.2 (Or.inr (.hostStart hlisted (host_isPrefix hlisted huser)))

theorem colon_notMem_http : ':' ∉ "http".toList := by
  decide

theorem slash_notMem_http : '/' ∉ "http".toList := by
  decide

theorem mark_notMem_http : '?' ∉ "http".toList := by
  decide

/-- A longer host that starts with a listed one: `http://deb.debian.org.evil.com/`. -/
def longerHost : AbsoluteUri where
  scheme := "http".toList
  authority := "deb.debian.org.evil.com".toList
  path := "/".toList
  query := none
  scheme_colon := colon_notMem_http
  scheme_slash := slash_notMem_http
  scheme_mark := mark_notMem_http
  authority_slash := by decide
  authority_mark := by decide
  path_rooted := ⟨[], rfl⟩
  path_mark := by decide

theorem not_hostsExact_longer : ¬ HostsExact longerHost := by
  intro h
  have hother : longerHost.host ∉ aptHosts := by
    decide
  have hclean : ¬ PathMark longerHost.path := by
    unfold PathMark
    decide
  have hapt := isAptRequest_text.2
    (Or.inr (.hostStart (u := longerHost) (h := "deb.debian.org".toList) (by decide) (by decide)))
  rw [(h.other hother hclean).1] at hapt
  cases hapt

end Proxy
end Squiddish
