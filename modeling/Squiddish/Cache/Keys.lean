import Squiddish.Lib.Utf8
import Squiddish.Cache.Example
import Squiddish.Cache.Paths
import Squiddish.Proxy.Caching

/-!
# Keys — which requests share a key

The bytes of a key are the method, the URI and the header lines with delimiters between them.  No
part has a zero byte in it and no name a colon, so the parts can be told from the bytes, and the
hash separates what the parts separate.
-/

namespace Squiddish
namespace Cache

open Lib

/-! ## The parts of a key -/

def nul : Char := Char.ofNat 0

/-- What `CacheKey::new` is given.  Methods, URIs and header lines of HTTP have no NUL in them, and
names of headers no colon. -/
structure KeyParts where
  method : Str
  uri : Str
  headers : List (Str × Str)
  nul_method : nul ∉ method
  nul_uri : nul ∉ uri
  nul_headers : ∀ p ∈ headers, nul ∉ p.1 ∧ nul ∉ p.2
  colon_headers : ∀ p ∈ headers, ':' ∉ p.1

namespace KeyParts

def key (sha256 : Bytes → Vector UInt8 32) (k : KeyParts) : CacheKey :=
  CacheKey.new sha256 k.method k.uri k.headers

/-- What goes into the hash. -/
def bytes (k : KeyParts) : Bytes :=
  keyBytes k.method k.uri k.headers

/-- A header line in the key. -/
def line (p : Str × Str) : Str :=
  p.1 ++ ':' :: p.2

/-- The bytes as text: the method, and then a NUL before each other part. -/
def text (k : KeyParts) : Str :=
  k.method ++ (k.uri :: k.headers.map line).flatMap (fun s => nul :: s)

theorem bytes_eq (k : KeyParts) : k.bytes = utf8Bytes k.text := by
  have hnul : ∀ s : Str, utf8Bytes (nul :: s) = 0 :: utf8Bytes s := fun _ => rfl
  have hline : ∀ p : Str × Str,
      0 :: utf8Encode p.1 ++ utf8Encode [':'] ++ utf8Encode p.2 = utf8Bytes (nul :: line p) := by
    intro p
    have hparts : utf8Bytes (line p) = utf8Bytes p.1 ++ utf8Bytes [':'] ++ utf8Bytes p.2 := by
      simp [line, utf8Bytes]
    rw [hnul, hparts]
    rfl
  calc
    k.bytes = utf8Encode k.method ++ 0 :: utf8Encode k.uri ++
        k.headers.flatMap (fun p => 0 :: utf8Encode p.1 ++ utf8Encode [':'] ++ utf8Encode p.2) :=
          rfl
    _ = utf8Bytes k.method ++ utf8Bytes (nul :: k.uri) ++
        k.headers.flatMap (fun p => utf8Bytes (nul :: line p)) := by
          rw [hnul]
          simp only [hline]
          rfl
    _ = utf8Bytes k.text := by
          simp [text, utf8Bytes, List.flatMap_assoc, List.flatMap_map, List.flatMap_append]

/-! ## Reading the parts back -/

theorem nul_line {k : KeyParts} {p : Str × Str} (hp : p ∈ k.headers) : nul ∉ line p := by
  have hparts := k.nul_headers p hp
  have hcolon : nul ≠ ':' := by
    decide
  simp [line, hparts, hcolon]

theorem nul_parts (k : KeyParts) : ∀ s ∈ k.uri :: k.headers.map line, nul ∉ s := by
  intro s hs
  rcases List.mem_cons.1 hs with rfl | hs
  · exact k.nul_uri
  · rcases List.mem_map.1 hs with ⟨p, hp, rfl⟩
    exact nul_line hp

/-- A line ends its name at its first colon. -/
theorem eq_of_map_line_eq {ps qs : List (Str × Str)} (hps : ∀ p ∈ ps, ':' ∉ p.1)
    (hqs : ∀ q ∈ qs, ':' ∉ q.1) (h : ps.map line = qs.map line) : ps = qs := by
  induction ps generalizing qs with
  | nil =>
      exact (List.map_eq_nil_iff.1 h.symm).symm
  | cons p ps ih =>
      cases qs with
      | nil =>
          cases h
      | cons q qs =>
          rw [List.map_cons, List.map_cons] at h
          rcases List.cons.inj h with ⟨hline, hrest⟩
          have hsplit : some (p.1, p.2) = some (q.1, q.2) := by
            calc
              some (p.1, p.2) = splitOnce ':' (line p) :=
                    (splitOnce_append (hps p List.mem_cons_self)).symm
              _ = splitOnce ':' (line q) := by rw [hline]
              _ = some (q.1, q.2) := splitOnce_append (hqs q List.mem_cons_self)
          have hpq : p = q := Option.some.inj hsplit
          rw [hpq, ih (fun r hr => hps r (List.mem_cons_of_mem _ hr))
            (fun r hr => hqs r (List.mem_cons_of_mem _ hr)) hrest]

/-- The parts say the same. -/
def Same (k k' : KeyParts) : Prop :=
  k.method = k'.method ∧ k.uri = k'.uri ∧ k.headers = k'.headers

/-- The bytes tell the parts. -/
theorem same_of_bytes {k k' : KeyParts} (h : k.bytes = k'.bytes) : Same k k' := by
  rw [bytes_eq, bytes_eq] at h
  have htext : k.text = k'.text := utf8Bytes_injective h
  -- the method ends at the first NUL, and each part before the next
  have hmethod : k.method = k'.method := by
    calc
      k.method = beforeFirst nul k.text := (beforeFirst_append_flatMap k.nul_method _).symm
      _ = beforeFirst nul k'.text := by rw [htext]
      _ = k'.method := beforeFirst_append_flatMap k'.nul_method _
  rw [text, text, hmethod] at htext
  have hparts := eq_of_flatMap_cons_eq k.nul_parts k'.nul_parts (List.append_cancel_left htext)
  rcases List.cons.inj hparts with ⟨huri, hlines⟩
  exact ⟨hmethod, huri, eq_of_map_line_eq k.colon_headers k'.colon_headers hlines⟩

theorem Same.key_eq {k k' : KeyParts} (h : Same k k') (sha256 : Bytes → Vector UInt8 32) :
    k.key sha256 = k'.key sha256 := by
  rw [key, key, h.1, h.2.1, h.2.2]

end KeyParts

/-! ## What the hash separates -/

theorem CacheKey.filePath_inj {key key' : CacheKey} :
    key.filePath = key'.filePath ↔ key.hashHex = key'.hashHex := by
  constructor
  · intro h
    exact (List.cons.inj (List.cons.inj (List.cons.inj h).2).2).1
  · intro h
    rw [CacheKey.filePath, CacheKey.filePath, h]

/-- What shares a hash, the place of a download (they are kept by the digits of the hash) or the
files on the disk. -/
structure SeparatesAs (key key' : CacheKey) (same : Prop) : Prop where
  hash : key.hash = key'.hash ↔ same
  slot : key.hashHex = key'.hashHex ↔ same
  file : key.filePath = key'.filePath ↔ same

/-- Without a collision between their bytes, keys are shared by equal parts only. -/
theorem key_separates (sha256 : Bytes → Vector UInt8 32) (k k' : KeyParts)
    (hsha : sha256 k.bytes = sha256 k'.bytes → k.bytes = k'.bytes) :
    SeparatesAs (k.key sha256) (k'.key sha256)
      (k.method = k'.method ∧ k.uri = k'.uri ∧ k.headers = k'.headers) := by
  have hhash : (k.key sha256).hash = (k'.key sha256).hash ↔ KeyParts.Same k k' :=
    ⟨fun h => KeyParts.same_of_bytes (hsha h), fun h => by rw [h.key_eq]⟩
  have hslot : (k.key sha256).hashHex = (k'.key sha256).hashHex ↔ KeyParts.Same k k' :=
    ⟨fun h => hhash.1 (CacheKey.hash_of_hashHex h), fun h => by rw [h.key_eq]⟩
  exact ⟨hhash, hslot, CacheKey.filePath_inj.trans hslot⟩

/-! ## The keys of requests -/

/-- What is read from a header value has no NUL in it. -/
theorem nul_toStr (v : HeaderValue) : nul ∉ (HeaderValue.toStr v).getD [] := by
  cases htext : HeaderValue.toStr v with
  | none =>
      exact List.not_mem_nil
  | some s =>
      rcases HeaderValue.toStr_eq_some htext with ⟨hall, rfl⟩
      intro hmem
      rcases List.mem_map.1 hmem with ⟨b, hb, hchar⟩
      rcases toNat_ofNat_textByte (hall b hb) with ⟨hnat, -, hne⟩
      have hzero : b.toNat = 0 := by
        rw [← hnat, hchar]
        rfl
      exact hne (UInt8.toNat_inj.1 hzero)

/-- The parts of the key of a request. -/
def KeyParts.ofRequest (req : Request) (hmethod : nul ∉ req.method) (huri : nul ∉ req.uri.text) :
    KeyParts where
  method := req.method
  uri := req.uri.text
  headers := ((req.headers.filter (fun p => p.1 = "accept-encoding".toList))).map
    (fun p => (p.1, (HeaderValue.toStr p.2).getD []))
  nul_method := hmethod
  nul_uri := huri
  nul_headers := by
    intro q hq
    rcases List.mem_map.1 hq with ⟨p, hp, rfl⟩
    have hname : p.1 = "accept-encoding".toList := of_decide_eq_true (List.mem_filter.1 hp).2
    have hnul : nul ∉ "accept-encoding".toList := by
      decide
    exact ⟨hname ▸ hnul, nul_toStr p.2⟩
  colon_headers := by
    intro q hq
    rcases List.mem_map.1 hq with ⟨p, hp, rfl⟩
    have hname : p.1 = "accept-encoding".toList := of_decide_eq_true (List.mem_filter.1 hp).2
    have hcolon : ':' ∉ "accept-encoding".toList := by
      decide
    exact hname ▸ hcolon

theorem key_ofRequest (sha256 : Bytes → Vector UInt8 32) (req : Request)
    (hmethod : nul ∉ req.method) (huri : nul ∉ req.uri.text) :
    (KeyParts.ofRequest req hmethod huri).key sha256 = Proxy.createCacheKey sha256 req :=
  rfl

/-- The key of a `GET` of this page, with these header lines. -/
def exampleParts (value : Str) (hvalue : nul ∉ value) : KeyParts where
  method := "GET".toList
  uri := "http://example.com/".toList
  headers := [("accept-encoding".toList, value)]
  nul_method := by decide
  nul_uri := by decide
  nul_headers := by
    intro p hp
    have hname : nul ∉ "accept-encoding".toList := by
      decide
    rw [List.mem_singleton.1 hp]
    exact ⟨hname, hvalue⟩
  colon_headers := by
    intro p hp
    have hname : ':' ∉ "accept-encoding".toList := by
      decide
    rw [List.mem_singleton.1 hp]
    exact hname

theorem key_separates_encodings :
    SeparatesAs ((exampleParts "gzip".toList (by decide)).key exampleSha256)
      ((exampleParts "br".toList (by decide)).key exampleSha256)
      ("GET".toList = "GET".toList ∧ "http://example.com/".toList = "http://example.com/".toList ∧
        [("accept-encoding".toList, "gzip".toList)] = [("accept-encoding".toList, "br".toList)]) :=
  key_separates _ (exampleParts "gzip".toList (by decide)) (exampleParts "br".toList (by decide))
    (by decide +kernel)

end Cache
end Squiddish
