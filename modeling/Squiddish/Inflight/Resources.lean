import Squiddish.Cache.Keys
import Squiddish.Inflight.Bodies
import Squiddish.Inflight.Coalescing
import Squiddish.Inflight.Variants

/-!
# Resources — every answer is an answer to the same question

Three things stand between the request of a client and the answer it gets: the cache, which may hold
anything that was ever put, the registry, which knows a download by a hash, and the task that
another client has started.  Behind all three there is one request that was sent upstream, and when
the hash function has no collision among the requests it has the method, the URI and the encodings
of the client's own.
-/

namespace Squiddish
namespace Inflight

open Lib Cache

variable {ι : Type} {E : Env ι}

/-! ## What a key says -/

/-- The two requests ask for the same thing. -/
structure SameResource (req req' : Request) : Prop where
  method : req.method = req'.method
  uri : req.uri.text = req'.uri.text
  encoding : encodingLines req = encodingLines req'

/-- Methods and URIs of HTTP have no NUL in them. -/
def Plain (req : Request) : Prop :=
  nul ∉ req.method ∧ nul ∉ req.uri.text

theorem encodingLines_eq (req : Request) :
    encodingLines req =
      ((req.headers.filter (fun p => p.1 = "accept-encoding".toList)).map
        (fun p => (p.1, (HeaderValue.toStr p.2).getD []))).map (fun p => utf8Encode p.2) := by
  rw [encodingLines, HeaderMap.getAll, List.map_map, List.map_map]
  refine List.map_congr_left ?_
  intro p _
  cases htext : HeaderValue.toStr p.2 with
  | none =>
      simp [htext, utf8Encode]
  | some s =>
      simp [htext, (utf8Encode_of_toStr htext).1]

/-- The text of a key tells all three. -/
theorem sameResource_of_keyText {req req' : Request} (hplain : Plain req) (hplain' : Plain req')
    (h : keyText req = keyText req') : SameResource req req' := by
  have hbytes : (KeyParts.ofRequest req hplain.1 hplain.2).bytes =
      (KeyParts.ofRequest req' hplain'.1 hplain'.2).bytes := h
  rcases KeyParts.same_of_bytes hbytes with ⟨hmethod, huri, hheaders⟩
  refine ⟨hmethod, huri, ?_⟩
  calc
    encodingLines req =
        (KeyParts.ofRequest req hplain.1 hplain.2).headers.map (fun p => utf8Encode p.2) :=
          encodingLines_eq req
    _ = (KeyParts.ofRequest req' hplain'.1 hplain'.2).headers.map (fun p => utf8Encode p.2) := by
          rw [hheaders]
    _ = encodingLines req' := (encodingLines_eq req').symm

/-- The hash function has no collision among the requests. -/
def Separating (E : Env ι) : Prop :=
  ∀ c i, E.sha256 (keyText (E.request c)) = E.sha256 (keyText (E.request i)) →
    keyText (E.request c) = keyText (E.request i)

theorem sameResource_of_hash (hplain : ∀ c, Plain (E.request c)) (hsep : Separating E) {c i : ι}
    (h : (E.key c).hash = (E.key i).hash) : SameResource (E.request c) (E.request i) :=
  sameResource_of_keyText (hplain c) (hplain i) (hsep c i (by rw [← hash_key, ← hash_key, h]))

/-! ## Whose task -/

/-- The task of a client's download works under the hash of the client's key. -/
structure Keyed (E : Env ι) (s : State ι) : Prop where
  registered : Registered s
  own : ∀ d t, s.tasks d = some t → t.Own E
  client : ∀ c d t, (s.clients c).download = some d → s.tasks d = some t →
    t.key.hash = (E.key c).hash

namespace Keyed

theorem init : Keyed E (State.init : State ι) where
  registered := .init
  own := by simp [State.init]
  client := by simp [State.init, Client.new]

variable [DecidableEq ι] {s s' : State ι} {a : Action ι}

theorem client_step (h : Keyed E s) (hstep : Step E s a s') :
    ∀ c d t, (s'.clients c).download = some d → s'.tasks d = some t →
      t.key.hash = (E.key c).hash := by
  refine h.registered.clients_step (P := fun c _ t _ => t.key.hash = (E.key c).hash) hstep
    ?_ ?_ ?_
  · intro c client' d t hclient hd ht
    cases hclient with
    | unchanged | settled _ | missed _ _ | answered _ _ _ | built _ =>
        exact h.client c d t hd ht
    | joined _ hdown =>
        -- the download was found under the hash
        cases hd
        rcases h.registered.task _ _ hdown with ⟨t', ht', hhash, -⟩
        cases ht.symm.trans ht'
        exact CacheKey.hash_of_hashHex hhash
    | started _ _ =>
        cases hd
        simp [h.registered.fresh _ (Nat.le_refl _)] at ht
    | polled _ hd' =>
        exact h.client c d t (by simpa using hd) ht
  · intro c _
    rfl
  · intro c d t t' _ _ _ hmove hkey
    rw [hmove.key]
    exact hkey

theorem step (h : Keyed E s) (hstep : Step E s a s') : Keyed E s' where
  registered := h.registered.step hstep
  own :=
    h.registered.downloads_step (P := fun t _ => t.Own E) hstep (fun _ _ => ⟨rfl, rfl⟩)
      (fun _ _ _ _ hmove hown => hmove.own hown) h.own
  client := h.client_step hstep

end Keyed

/-! ## Where an answer comes from -/

/-- The headers the client has got. -/
def Client.headers (client : Client) : Option (List (Str × Str)) :=
  match client.phase with
  | .hit entry => some entry.headers
  | _ => client.responseMeta.map ResponseMeta.headers

/-- The data the client has got. -/
def Client.data (client : Client) : Bytes :=
  match client.phase with
  | .hit entry => entry.data
  | _ => client.received.flatten

/-- All the client has got is what upstream answered to the request of the task `t`, which asked for
what the client asks for. -/
structure ServedFrom (E : Env ι) (s : State ι) (c : ι) (t : Task ι) (resp : Response) : Prop where
  response : t.response = some resp
  status : (s.clients c).status = some resp.status
  headers : (s.clients c).headers = some (metaOf resp).headers
  data : (s.clients c).data <+: t.upstream.flatten
  /-- A hit has all of it. -/
  whole : ∀ entry, (s.clients c).phase = .hit entry →
    t.bodyComplete = true ∧ entry.data = t.upstream.flatten
  request : SameResource (E.request c) t.request

/-- Steps bring no client an answer to another question. -/
theorem Keyed.fitting {s : State ι} {a : Action ι} (h : Keyed E s) (hplain : ∀ c, Plain (E.request c))
    (hsep : Separating E) :
    Fitting (fun c i _ => SameResource (E.request c) (E.request i)) E s a := by
  have hown : ∀ c d t, s.tasks d = some t → t.key.hash = (E.key c).hash →
      SameResource (E.request c) (E.request t.initiator) := by
    intro c d t ht hhash
    refine sameResource_of_hash hplain hsep ?_
    rw [← (h.own d t ht).2, hhash]
  constructor
  · cases a with
    | respond d resp =>
        intro c t rx initial hd ht _
        exact hown c d t ht (h.client c d t hd ht)
    | joinOrStart c =>
        intro d t resp m hdown ht _ _
        rcases h.registered.task _ _ hdown with ⟨t', ht', hhash, -⟩
        cases ht.symm.trans ht'
        exact hown c d t ht (CacheKey.hash_of_hashHex hhash)
    | _ =>
        trivial
  · cases a with
    | store d now =>
        intro t resp hlen entry c ht _ _ _ hhash
        exact hown c d t ht hhash.symm
    | _ =>
        trivial

section System

variable [DecidableEq ι] {s : State ι} {as : List (Action ι)}

theorem fitting_run (hplain : ∀ c, Plain (E.request c)) (hsep : Separating E)
    (hrun : Run (Step E) .init as s) :
    Run (Guarded (Step E) (Fitting (fun c i _ => SameResource (E.request c) (E.request i)) E))
      .init as s := by
  refine (Run.guarded_iff_forall (J := Keyed E) (P := fun _ => True) ?_ ?_ .init).2
    ⟨hrun, fun _ _ => trivial⟩
  · intro s a s' h hstep
    exact h.step hstep
  · intro s a s' h _
    exact iff_of_true (h.fitting hplain hsep) trivial

/-- The headers that a client has from its download. -/
theorem servedFrom_of_responseMeta (hplain : ∀ c, Plain (E.request c)) (hsep : Separating E)
    (hrun : Run (Step E) .init as s) {c : ι} {m : ResponseMeta}
    (hm : (s.clients c).responseMeta = some m) :
    ∃ d t resp, (s.clients c).download = some d ∧ s.tasks d = some t ∧ m = metaOf resp ∧
      ServedFrom E s c t resp := by
  have hdel : Delivering s := .of_run hrun
  have hkeyed : Keyed E s := hrun.invariant (fun _ _ _ h hstep => h.step hstep) .init
  have hnothit : ∀ entry, (s.clients c).phase ≠ .hit entry := by
    intro entry hphase
    simp [Client.responseMeta, hphase] at hm
  have hfields : (s.clients c).status = some m.status ∧ (s.clients c).headers = some m.headers ∧
      (s.clients c).data = (s.clients c).received.flatten := by
    cases hphase : (s.clients c).phase with
    | hit entry =>
        exact absurd hphase (hnothit entry)
    | _ =>
        simp [Client.status, Client.headers, Client.data, hphase, hm]
  rcases fits_of_run (fitting_run hplain hsep hrun) hfields.1 with ⟨i, resp, hanswer, -, hsame⟩
  rcases hanswer with ⟨d, t, hd, ht, rfl, hresponse, hmeta⟩ | ⟨entry, hhit, -, -⟩
  · cases hm.symm.trans hmeta
    refine ⟨d, t, resp, hd, ht, rfl, hresponse, hfields.1, hfields.2.1, ?_, ?_, ?_⟩
    · rw [hfields.2.2]
      exact ((hdel.follows c d hd).1.trans (hdel.consistent d t ht).upstream).flatten
    · intro entry hphase
      exact absurd hphase (hnothit entry)
    · rw [(hkeyed.own d t ht).1]
      exact hsame
  · exact absurd hhit (hnothit entry)

/-- An entry of the cache is all of an answer. -/
theorem servedFrom_of_hit (hplain : ∀ c, Plain (E.request c)) (hsep : Separating E)
    (hrun : Run (Step E) .init as s) {c : ι} {entry : CacheEntry}
    (hhit : (s.clients c).phase = .hit entry) :
    ∃ d t resp, s.tasks d = some t ∧ ServedFrom E s c t resp := by
  have hwhole : Whole E s := whole_of_run hrun
  have hkeyed : Keyed E s := hrun.invariant (fun _ _ _ h hstep => h.step hstep) .init
  have hstatus : (s.clients c).status = some entry.status := by
    simp [Client.status, hhit]
  rcases fits_of_run (fitting_run hplain hsep hrun) hstatus with
    ⟨i, resp, hanswer, hresp, hsame⟩
  rcases hanswer with ⟨d, t, -, -, -, -, hmeta⟩ | ⟨entry', hhit', hfor, -⟩
  · simp [Client.responseMeta, hhit] at hmeta
  · cases hhit.symm.trans hhit'
    rcases hfor with ⟨d, t, ht, rfl, hstored⟩
    rcases hstored.entry_eq with ⟨hcacheable, hentry, hheaders, hdata⟩
    have hall : entry.data = t.upstream.flatten :=
      hdata.trans ((hwhole.buffered d t ht).buffer (Or.inr hstored.complete) resp
        hstored.response hcacheable)
    refine ⟨d, t, resp, ht, hstored.response, hresp ▸ hstatus, ?_, ?_, ?_, ?_⟩
    · simp [Client.headers, hhit, hheaders]
    · simp [Client.data, hhit, hall]
    · intro entry' hphase
      cases hhit.symm.trans hphase
      exact ⟨hstored.complete, hall⟩
    · rw [(hkeyed.own d t ht).1]
      exact hsame

/-- Whatever a client gets, from a download it started or joined or from the cache, is what upstream
answered to a request for the same thing. -/
theorem servedFrom_of_run (hplain : ∀ c, Plain (E.request c)) (hsep : Separating E)
    (hrun : Run (Step E) .init as s) {c : ι} {status : Nat}
    (hstatus : (s.clients c).status = some status) :
    ∃ d t resp, s.tasks d = some t ∧ ServedFrom E s c t resp := by
  by_cases hhit : ∃ entry, (s.clients c).phase = .hit entry
  · rcases hhit with ⟨entry, hphase⟩
    exact servedFrom_of_hit hplain hsep hrun hphase
  · have hmeta : ∃ m, (s.clients c).responseMeta = some m ∧ m.status = status := by
      cases hphase : (s.clients c).phase with
      | hit entry =>
          exact absurd ⟨entry, hphase⟩ hhit
      | _ =>
          simpa [Client.status, hphase] using hstatus
    rcases hmeta with ⟨m, hm, -⟩
    rcases servedFrom_of_responseMeta hplain hsep hrun hm with ⟨d, t, resp, -, ht, -, hserved⟩
    exact ⟨d, t, resp, ht, hserved⟩

end System

theorem plain_exampleEnv (c : Nat) : Plain (exampleEnv.request c) :=
  ⟨by simp [exampleEnv, nul], by simp [exampleEnv, nul]⟩

/-- They all ask for the same. -/
theorem separating_exampleEnv : Separating exampleEnv :=
  fun _ _ _ => rfl

/-- Three clients: one starts the download, one joins it, and one comes when it is stored. -/
theorem servedFrom_of_run_three :
    ∃ s : State Nat, (∃ d t resp, s.tasks d = some t ∧ ServedFrom exampleEnv s 1 t resp) ∧
      ∃ d t resp, s.tasks d = some t ∧ ServedFrom exampleEnv s 2 t resp := by
  have hrun : Run (Step exampleEnv) .init
      [.lookup 0, .joinOrStart 0, .lookup 1, .joinOrStart 1, .fetch 0, .respond 0 ⟨200, []⟩,
        .awaitMeta 1, .chunk 0 [104, 105], .bodyEnd 0, .store 0 0, .lookup 2] _ :=
    .cons (.lookupMiss rfl rfl) <| .cons (.joinOrStart rfl) <|
    .cons (.lookupMiss rfl rfl) <| .cons (.joinOrStart rfl) <| .cons (.fetch rfl rfl) <|
    .cons (.respond rfl rfl) <| .cons (.awaitMeta rfl rfl rfl) <|
    .cons (.chunk rfl rfl rfl (by decide)) <| .cons (.bodyEnd rfl rfl) <|
    .cons (.store (by decide) rfl rfl) <|
    .cons (.lookupStored rfl rfl rfl (by decide) storedTtl_exampleEnv) <| .nil _
  exact ⟨_,
    servedFrom_of_run plain_exampleEnv separating_exampleEnv hrun (show _ = some 200 from rfl),
    servedFrom_of_run plain_exampleEnv separating_exampleEnv hrun (show _ = some 200 from rfl)⟩

end Inflight
end Squiddish
