import Squiddish.Inflight.Bodies
import Squiddish.Proxy.Fetch

/-!
# Tasks — the steps of a task are the loop of `fetch_and_stream`

The task of a download takes its steps between those of clients and of other tasks.  When its body
has ended, the calls it has made into the cache, with the one that is still to come, are those that
the loop makes on the same frames.
-/

namespace Squiddish
namespace Inflight

open Lib Cache Proxy

/-- The data frames of a body. -/
def answersOf (chunks : List Bytes) : List Answer :=
  chunks.map (fun bytes => .frame (.data bytes))

/-- The call that stores an entry. -/
def putOf (key : CacheKey) (entry : CacheEntry) : PutCall where
  key := key
  data := entry.data
  headers := entry.headers
  status := entry.status
  timestamp := entry.timestamp
  ttlSeconds := entry.ttlSeconds

/-- What a task has published and passed on when its body has ended, and what it stores. -/
def Task.effects {ι : Type} (E : Env ι) (t : Task ι) (resp : Response) (now : Nat)
    (h : t.cacheBuf.length < 2 ^ 63) : List Effect :=
  loopEffects (metaOf resp) t.upstream ++
    (State.stored E t now h).toList.map (fun entry => .put (putOf t.key entry))

/-- On data frames that fit, the loop passes on every chunk as it is. -/
theorem readBody_answersOf {maxBodySize : Nat} {cacheable : Bool} {chunks : List Bytes}
    {cacheBuf : Bytes} {totalSize : Nat}
    (hfits : totalSize + chunks.flatten.length ≤ maxBodySize) :
    readBody maxBodySize cacheable (answersOf chunks) cacheBuf totalSize =
      (.ok (if cacheable then cacheBuf ++ chunks.flatten else cacheBuf), chunks) := by
  induction chunks generalizing cacheBuf totalSize with
  | nil =>
      simp [answersOf, readBody]
  | cons chunk chunks ih =>
      have hsum : totalSize + chunk.length + chunks.flatten.length ≤ maxBodySize := by
        simpa [Nat.add_assoc] using hfits
      have hsmall : ¬ maxBodySize < totalSize + chunk.length :=
        Nat.not_lt.2 (Nat.le_trans (Nat.le_add_right _ _) hsum)
      have hrest := @ih (if cacheable then cacheBuf ++ chunk else cacheBuf) _ hsum
      rw [answersOf, List.map_cons, ← answersOf, readBody, if_neg hsmall, hrest]
      cases cacheable <;> simp

section Tasks

variable {ι : Type} {E : Env ι}

theorem Buffered.effects_eq {t : Task ι} (h : Buffered E t) (hcomplete : t.bodyComplete = true)
    {resp : Response} (hresp : t.response = some resp) (now : Nat)
    (hlen : t.cacheBuf.length < 2 ^ 63) :
    (streamResponse E.parseHttpDate E.config t.key now now resp (answersOf t.upstream)).2 =
      t.effects E resp now hlen := by
  obtain ⟨hsize, hfits⟩ := h.size (Or.inr hcomplete)
  have hread := @readBody_answersOf E.config.security.maxBodySize (cacheable resp) t.upstream [] 0
    (by simpa [hsize] using hfits)
  unfold streamResponse Task.effects State.stored
  simp only [hresp]
  cases hcacheable : cacheable resp with
  | false =>
      have hnot : shouldCacheResponse resp.status (filterHeaders resp.headers) = false := hcacheable
      rw [hcacheable] at hread
      simp [hnot, hread, metaOf]
  | true =>
      have hstore : shouldCacheResponse resp.status (filterHeaders resp.headers) = true :=
        hcacheable
      have hbuffer := h.buffer (Or.inr hcomplete) resp hresp hcacheable
      rw [hcacheable] at hread
      cases storedTtl E.parseHttpDate E.config now t.key.uri (filterHeaders resp.headers) with
      | none =>
          simp [hstore, hread, metaOf]
      | some ttl =>
          simp [hstore, hread, metaOf, State.entryOf, putOf, hbuffer]

/-- In any run a task whose body has ended makes the calls of `fetch_and_stream`. -/
theorem effects_of_run [DecidableEq ι] {s : State ι} {as : List (Action ι)}
    (hrun : Run (Step E) .init as s) {d : Nat} {t : Task ι} (ht : s.tasks d = some t)
    (hcomplete : t.bodyComplete = true) {resp : Response} (hresp : t.response = some resp)
    (now : Nat) (hlen : t.cacheBuf.length < 2 ^ 63) :
    (streamResponse E.parseHttpDate E.config t.key now now resp (answersOf t.upstream)).2 =
      t.effects E resp now hlen :=
  ((whole_of_run hrun).buffered d t ht).effects_eq hcomplete hresp now hlen

end Tasks

end Inflight
end Squiddish
