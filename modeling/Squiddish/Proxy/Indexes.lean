import Squiddish.Proxy.Apt

/-!
# Indexes — the lifetimes of repository indexes and packages

Which URIs `fetch_and_stream` stores for the lifetime of package lists, and which for that of
packages.  The classifiers look at the end of the text; with a query that is the end of the
query, and a plain `Packages` is not among their patterns.
-/

namespace Squiddish
namespace Proxy

open Lib Cache

/-! ## The lifetime that is stored -/

/-- Whatever is stored for the URI while APT is enabled is stored for this lifetime. -/
def StoredFor (lifetime : AptConfig → Nat) (u : AbsoluteUri) : Prop :=
  ∀ (parseHttpDate : Str → Option Nat) (config : Config)
    (fetch : Request → Bytes → Except ProxyError (Response × List Answer))
    (sha256 : Bytes → Vector UInt8 32) (now later : Nat) (req : Request)
    (body : List (Except Str Frame)),
    config.apt.enabled = true → req.uri = u.toUri →
      ∀ call ∈ putsOf (fetchAndStream parseHttpDate config fetch (createCacheKey sha256 req) now
        later req body).2, call.ttlSeconds = lifetime config.apt

section Lifetimes

variable {parseHttpDate : Str → Option Nat} {config : Config} {key : CacheKey} {now later : Nat}
  {lifetime : AptConfig → Nat} {u : AbsoluteUri}

theorem ttl_of_mem_putsOf {resp : Response} {answers : List Answer} {call : PutCall}
    (h : call ∈ putsOf (streamResponse parseHttpDate config key now later resp answers).2) :
    storedTtl parseHttpDate config now key.uri (filterHeaders resp.headers) =
      some call.ttlSeconds := by
  by_cases hstorable : Storable parseHttpDate config key now resp answers
  · rcases putsOf_of_storable later hstorable with ⟨ttl, httl, hputs⟩
    rw [hputs, List.mem_singleton] at h
    rw [h, httl]
    rfl
  · rw [putsOf_of_not_storable later hstorable] at h
    cases h

theorem ttl_of_mem_fetchAndStream
    {fetch : Request → Bytes → Except ProxyError (Response × List Answer)} {req : Request}
    {body : List (Except Str Frame)} {call : PutCall}
    (h : call ∈ putsOf (fetchAndStream parseHttpDate config fetch key now later req body).2) :
    ∃ headers, storedTtl parseHttpDate config now key.uri headers = some call.ttlSeconds := by
  by_cases hanswered : ∃ resp answers, Answered config fetch req body resp answers
  · rcases hanswered with ⟨resp, answers, hanswered⟩
    rw [fetchAndStream_of_answered hanswered] at h
    exact ⟨filterHeaders resp.headers, ttl_of_mem_putsOf h⟩
  · have hnot : ∀ resp answers, ¬ Answered config fetch req body resp answers :=
      fun resp answers hans => hanswered ⟨resp, answers, hans⟩
    rw [fetchAndStream_of_not_answered hnot] at h
    cases h

/-- The lifetime is stored when it is given for all headers. -/
theorem storedFor_of_storedTtl
    (h : ∀ (parseHttpDate : Str → Option Nat) (config : Config) (now : Nat) (headers : HeaderMap),
      config.apt.enabled = true →
        storedTtl parseHttpDate config now u.text headers = some (lifetime config.apt)) :
    StoredFor lifetime u := by
  intro parseHttpDate config fetch sha256 now later req body henabled huri call hcall
  rcases ttl_of_mem_fetchAndStream hcall with ⟨headers, httl⟩
  have hkey : (createCacheKey sha256 req).uri = u.text := by
    simp [createCacheKey, CacheKey.new, huri, AbsoluteUri.toUri]
  rw [hkey, h parseHttpDate config now headers henabled] at httl
  exact (Option.some.inj httl).symm

/-- A page without headers, under the default configuration, shows the lifetime. -/
theorem StoredFor.default (h : StoredFor lifetime u) :
    storedTtl (fun _ => none) Config.default 0 u.text [] = some (lifetime Config.default.apt) := by
  let req : Request := { method := "GET".toList, uri := u.toUri, headers := [] }
  let key : CacheKey := createCacheKey (fun _ => .replicate 32 0) req
  let page : Response := { status := 200, headers := [] }
  let fetch : Request → Bytes → Except ProxyError (Response × List Answer) :=
    fun _ _ => .ok (page, [])
  have hanswered : Answered Config.default fetch req [] page [] :=
    ⟨[], rfl, rfl⟩
  have hunread : parseCacheControlHeaders (fun _ => none) 0 [] = none := by
    decide
  have hlives : ¬ ((Config.default.apt.enabled && isAptRequest key.uri) = false ∧
      parseCacheControlHeaders (fun _ => none) 0 (filterHeaders page.headers) = some 0) := by
    rintro ⟨-, hzero⟩
    have hfiltered : filterHeaders page.headers = [] := by
      decide
    rw [hfiltered, hunread] at hzero
    cases hzero
  have hstorable : Storable (fun _ => none) Config.default key 0 page [] :=
    { cacheable := by decide
      complete := fun a ha => by cases ha
      fits := Nat.zero_le _
      lives := hlives }
  rcases putsOf_of_storable 0 hstorable with ⟨ttl, httl, hputs⟩
  have hcall := h (fun _ => none) Config.default fetch (fun _ => .replicate 32 0) 0 0 req [] rfl
    rfl (putCall key 0 page [] ttl) (by
      rw [fetchAndStream_of_answered hanswered, hputs]
      exact List.mem_singleton_self _)
  have hfiltered : filterHeaders page.headers = [] := by
    decide
  rw [hfiltered] at httl
  rw [← hcall]
  exact httl

/-- What is stored under the default configuration, by the answers of the classifiers. -/
theorem storedTtl_default (uri : Str) :
    storedTtl (fun _ => none) Config.default 0 uri [] =
      if isAptRequest uri = true then
        if isAptPackageFile uri = true then some (30 * 24 * 60 * 60)
        else if isAptPackageList uri = true then some (60 * 60)
        else some (24 * 60 * 60)
      else some (7 * 24 * 60 * 60) := by
  have hunread : parseCacheControlHeaders (fun _ => none) 0 [] = none := by
    decide
  unfold storedTtl
  rw [hunread]
  rfl

theorem storedFor_list_iff :
    StoredFor AptConfig.listTtlSeconds u ↔
      isAptRequest u.text = true ∧ ¬ isAptPackageFile u.text = true ∧
        isAptPackageList u.text = true := by
  constructor
  · intro h
    have hdefault := h.default
    rw [storedTtl_default] at hdefault
    split_ifs at hdefault with hapt hfile hlist
    · cases hdefault
    · exact ⟨hapt, hfile, hlist⟩
    · cases hdefault
    · cases hdefault
  · rintro ⟨hapt, hfile, hlist⟩
    refine storedFor_of_storedTtl fun parseHttpDate config now headers henabled => ?_
    simp [storedTtl, henabled, hapt, hfile, hlist]

theorem storedFor_package_iff :
    StoredFor AptConfig.packageTtlSeconds u ↔ isAptPackageFile u.text = true := by
  constructor
  · intro h
    have hdefault := h.default
    rw [storedTtl_default] at hdefault
    split_ifs at hdefault with hapt hfile hlist
    · exact hfile
    · cases hdefault
    · cases hdefault
    · cases hdefault
  · intro hfile
    have hapt : isAptRequest u.text = true :=
      isAptRequest_iff.2 (Or.inr (Or.inr (Or.inr (of_decide_eq_true hfile))))
    refine storedFor_of_storedTtl fun parseHttpDate config now headers henabled => ?_
    simp [storedTtl, henabled, hapt, hfile]

end Lifetimes

/-! ## The last segment -/

section Segments

variable {u : AbsoluteUri} {p : Str}

theorem AbsoluteUri.path_eq (u : AbsoluteUri) : ∃ front, u.path = front ++ '/' :: u.file := by
  rcases u.path_rooted with ⟨segments, hpath⟩
  unfold AbsoluteUri.file afterLast
  cases hsplit : rsplitOnce '/' u.path with
  | none =>
      exact absurd (by simp [hpath]) (rsplitOnce_eq_none.1 hsplit)
  | some q =>
      exact ⟨q.1, (rsplitOnce_eq_some.1 hsplit).1⟩

theorem suffix_path_iff (hp : '/' ∉ p) : p <:+ u.path ↔ p <:+ u.file := by
  rcases u.path_eq with ⟨front, hpath⟩
  rw [hpath, suffix_append_cons_iff hp]

/-- A path ends with a whole segment when that is its last one. -/
theorem cons_suffix_path_iff (hp : '/' ∉ p) : '/' :: p <:+ u.path ↔ u.file = p := by
  rcases u.path_eq with ⟨front, hpath⟩
  have hfile : '/' ∉ u.file := notMem_afterLast '/' u.path
  rw [hpath, cons_suffix_append_iff hp, List.suffix_cons_iff]
  constructor
  · rintro (heq | hin)
    · exact (List.cons.inj heq).2.symm
    · exact absurd (hin.subset List.mem_cons_self) hfile
  · rintro rfl
    exact Or.inl rfl

theorem file_infix_path (hfile : u.file = p) : p <:+: u.path := by
  rcases u.path_eq with ⟨front, hpath⟩
  rw [hpath, hfile]
  exact List.infix_append_of_infix_right (List.infix_cons List.infix_rfl)

end Segments

/-! ## Indexes -/

/-- The index files that lie under `/dists/`. -/
def distsFiles : List Str :=
  "Packages".toList :: releaseFiles

/-- The path is that of an index file of a repository. -/
def RepositoryIndex (u : AbsoluteUri) : Prop :=
  u.file ∈ listPatterns ∨ (dirMark "dists".toList <:+: u.path ∧ u.file ∈ distsFiles)

/-- Indexes live as long as package lists, and only packages as long as packages. -/
structure IndexesShort (u : AbsoluteUri) : Prop where
  index : RepositoryIndex u → StoredFor AptConfig.listTtlSeconds u
  package : StoredFor AptConfig.packageTtlSeconds u → ".deb".toList <:+ u.path

/-- The text has the name of a list in one of its parts. -/
def ListMark (u : AbsoluteUri) : Prop :=
  ∃ f ∈ listPatterns, f <:+: u.scheme ∨ f <:+: u.authority ∨ f <:+: u.path ∨
    ∃ query ∈ u.query, f <:+: query

/-- The text ends with a release file: of the path, or of the query when there is one. -/
def ReleaseEnd (u : AbsoluteUri) : Prop :=
  (u.query = none ∧ u.file ∈ releaseFiles) ∨
    ∃ query ∈ u.query, ∃ r ∈ releaseFiles, '/' :: r <:+ query

/-- No query poses as a package, and an index under `/dists/` is one of those that are found. -/
structure IndexesFound (u : AbsoluteUri) : Prop where
  package : ∀ query, u.query = some query → ".deb".toList <:+ query → ".deb".toList <:+ u.path
  index : dirMark "dists".toList <:+: u.path → u.file ∈ distsFiles → ListMark u ∨ ReleaseEnd u

theorem releaseFiles_plain : ∀ r ∈ releaseFiles, '/' ∉ r ∧ '?' ∉ r :=
  forall_mem_of_all (by decide)

theorem isAptPackageList_iff {s : Str} :
    isAptPackageList s = true ↔
      (∃ f ∈ listPatterns, f <:+: s) ∨
        (dirMark "dists".toList <:+: s ∧ ∃ r ∈ releaseFiles, '/' :: r <:+ s) := by
  have hends : releaseFiles.any (fun r => endsWith s ('/' :: r)) =
      (endsWith s "/Release".toList || endsWith s "/Release.gpg".toList) := by
    simp [releaseFiles]
  have hdists : dirMark "dists".toList = "/dists/".toList := by
    decide
  unfold isAptPackageList
  rw [← hends, hdists, Bool.or_eq_true, Bool.and_eq_true]
  simp only [List.any_eq_true, contains, endsWith, decide_eq_true_eq]
  rfl

section Index

variable {u : AbsoluteUri}

theorem release_suffix_text :
    (∃ r ∈ releaseFiles, '/' :: r <:+ u.text) ↔ ReleaseEnd u := by
  have hone : ∀ r ∈ releaseFiles, ('/' :: r <:+ u.text ↔
      (u.query = none ∧ u.file = r) ∨ ∃ query ∈ u.query, '/' :: r <:+ query) := by
    intro r hr
    rcases releaseFiles_plain r hr with ⟨hslash, hmark⟩
    rw [AbsoluteUri.suffix_text (by simp [hmark]), AbsoluteUri.cons_suffix_resource hslash,
      cons_suffix_path_iff hslash]
  constructor
  · rintro ⟨r, hr, hsuffix⟩
    rcases (hone r hr).1 hsuffix with ⟨hnone, rfl⟩ | ⟨query, hq, hquery⟩
    · exact Or.inl ⟨hnone, hr⟩
    · exact Or.inr ⟨query, hq, r, hr, hquery⟩
  · rintro (⟨hnone, hmem⟩ | ⟨query, hq, r, hr, hquery⟩)
    · exact ⟨u.file, hmem, (hone _ hmem).2 (Or.inl ⟨hnone, rfl⟩)⟩
    · exact ⟨r, hr, (hone r hr).2 (Or.inr ⟨query, hq, hquery⟩)⟩

theorem list_infix_text : (∃ f ∈ listPatterns, f <:+: u.text) ↔ ListMark u := by
  constructor
  · rintro ⟨f, hf, hin⟩
    exact ⟨f, hf, (file_infix_text (mem_aptFiles_of_mem_listPatterns f hf)).1 hin⟩
  · rintro ⟨f, hf, hin⟩
    exact ⟨f, hf, (file_infix_text (mem_aptFiles_of_mem_listPatterns f hf)).2 hin⟩

theorem isAptPackageFile_text :
    isAptPackageFile u.text = true ↔
      (u.query = none ∧ ".deb".toList <:+ u.path) ∨
        ∃ query ∈ u.query, ".deb".toList <:+ query := by
  rw [isAptPackageFile, endsWith, decide_eq_true_eq, deb_suffix_text]

/-- Every index is taken for APT. -/
theorem RepositoryIndex.isAptRequest (h : RepositoryIndex u) : isAptRequest u.text = true := by
  rw [isAptRequest_text]
  rcases h with hfile | ⟨hdists, -⟩
  · exact Or.inl (.file (mem_aptFiles_of_mem_listPatterns _ hfile) (file_infix_path rfl))
  · exact Or.inl (.dir (by decide) hdists)

theorem indexFiles_not_deb : ∀ f ∈ listPatterns ++ distsFiles, ¬ ".deb".toList <:+ f :=
  forall_mem_of_all (by decide)

theorem RepositoryIndex.not_deb (h : RepositoryIndex u) : ¬ ".deb".toList <:+ u.path := by
  rw [suffix_path_iff (by decide)]
  refine indexFiles_not_deb u.file (List.mem_append.2 ?_)
  exact h.imp id And.right

/-- An index is taken for a package because of its query only. -/
theorem RepositoryIndex.isAptPackageFile_iff (h : RepositoryIndex u) :
    isAptPackageFile u.text = true ↔ ∃ query ∈ u.query, ".deb".toList <:+ query := by
  rw [isAptPackageFile_text]
  constructor
  · rintro (⟨-, hdeb⟩ | hquery)
    · exact absurd hdeb h.not_deb
    · exact hquery
  · exact Or.inr

/-- The files with a pattern of their own are found anywhere, the others by the end of the
text. -/
theorem RepositoryIndex.isAptPackageList_iff (h : RepositoryIndex u) :
    isAptPackageList u.text = true ↔
      (dirMark "dists".toList <:+: u.path → u.file ∈ distsFiles →
        ListMark u ∨ ReleaseEnd u) := by
  rw [Proxy.isAptPackageList_iff, list_infix_text, release_suffix_text]
  constructor
  · rintro (hlist | ⟨-, hrelease⟩) - -
    · exact Or.inl hlist
    · exact Or.inr hrelease
  · intro hfound
    rcases h with hfile | ⟨hdists, hfile⟩
    · exact Or.inl ⟨u.file, hfile, Or.inr (Or.inr (Or.inl (file_infix_path rfl)))⟩
    · rcases hfound hdists hfile with hlist | hrelease
      · exact Or.inl hlist
      · exact Or.inr ⟨(dir_infix_text (by decide)).2 (Or.inr (Or.inl hdists)), hrelease⟩

theorem RepositoryIndex.storedFor_iff (h : RepositoryIndex u) :
    StoredFor AptConfig.listTtlSeconds u ↔
      (¬ ∃ query ∈ u.query, ".deb".toList <:+ query) ∧
        (dirMark "dists".toList <:+: u.path → u.file ∈ distsFiles →
          ListMark u ∨ ReleaseEnd u) := by
  rw [storedFor_list_iff, h.isAptPackageFile_iff, h.isAptPackageList_iff]
  exact and_iff_right h.isAptRequest

end Index

theorem indexesShort_iff (u : AbsoluteUri) : IndexesShort u ↔ IndexesFound u := by
  constructor
  · intro h
    constructor
    · intro query hq hdeb
      exact h.package (storedFor_package_iff.2
        (isAptPackageFile_text.2 (Or.inr ⟨query, hq, hdeb⟩)))
    · intro hdists hfile
      have hindex : RepositoryIndex u := Or.inr ⟨hdists, hfile⟩
      exact (hindex.storedFor_iff.1 (h.index hindex)).2 hdists hfile
  · intro h
    constructor
    · intro hindex
      refine hindex.storedFor_iff.2 ⟨?_, h.index⟩
      rintro ⟨query, hq, hdeb⟩
      exact hindex.not_deb (h.package query hq hdeb)
    · intro hstored
      rcases isAptPackageFile_text.1 (storedFor_package_iff.1 hstored) with
        ⟨-, hdeb⟩ | ⟨query, hq, hdeb⟩
      · exact hdeb
      · exact h.package query hq hdeb

/-- A plain list: `http://a.b/dists/sid/main/binary-amd64/Packages`. -/
def plainPackages : AbsoluteUri where
  scheme := "http".toList
  authority := "a.b".toList
  path := "/dists/sid/main/binary-amd64/Packages".toList
  query := none
  scheme_colon := colon_notMem_http
  scheme_slash := slash_notMem_http
  scheme_mark := mark_notMem_http
  authority_slash := by decide
  authority_mark := by decide
  path_rooted := ⟨"dists/sid/main/binary-amd64/Packages".toList, rfl⟩
  path_mark := by decide

theorem not_indexesShort_plain : ¬ IndexesShort plainPackages := by
  intro h
  have hindex : RepositoryIndex plainPackages :=
    Or.inr ⟨by decide +kernel, by decide +kernel⟩
  have hlist := (storedFor_list_iff.1 (h.index hindex)).2.2
  have hunseen : isAptPackageList plainPackages.text = false := by
    decide +kernel
  rw [hunseen] at hlist
  cases hlist

end Proxy
end Squiddish
