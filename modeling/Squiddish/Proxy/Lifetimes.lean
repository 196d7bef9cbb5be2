import Squiddish.Cache.Copies
import Squiddish.Proxy.Fetch
import Squiddish.Proxy.Freshness

/-!
# Lifetimes — for how long a response is served from the cache

Downloads, lookups and restarts under one clock.  The lifetime of a response begins when its headers
are received.  That of its entry begins when the body is complete, and `is_expired` counts in whole
seconds.  `servedInTime_iff` says which lookups this lets through too late.
-/

namespace Squiddish
namespace Proxy

open Lib Cache

/-! ## The state -/

/-- A response whose headers have been received, and when. -/
structure Received where
  key : CacheKey
  resp : Response
  time : Nat

/-- A response that was stored: when its lifetime was looked up, and when its body was complete. -/
structure Kept where
  received : Received
  judged : Nat
  completed : Nat
  entry : CacheEntry

/-- Both tiers, the time of day, the downloads that wait for their bodies, and all that was ever
stored. -/
structure Service where
  traffic : Traffic
  clock : Nat
  downloads : Nat → Option Received
  kept : List Kept

namespace Service

def init (maxSize now : Nat) : Service where
  traffic := .init (fun _ => none) (.fresh maxSize now)
  clock := now
  downloads := fun _ => none
  kept := []

def setClock (s : Service) (time : Nat) : Service :=
  { s with
    clock := time
    traffic :=
      { s.traffic with
        disk := { s.traffic.disk with files := s.traffic.disk.files.setClock time } } }

def setDownload (s : Service) (id : Nat) (download : Option Received) : Service :=
  { s with downloads := Function.update s.downloads id download }

def setTraffic (s : Service) (t : Traffic) : Service :=
  { s with traffic := t }

/-- One more response has been stored. -/
def keep (s : Service) (p : Kept) : Service :=
  { s with kept := p :: s.kept }

end Service

/-! ## Steps -/

/-- The entry that is passed to `cache.put`. -/
def PutCall.entry (call : PutCall) (hdata : call.data.length < 2 ^ 63) : CacheEntry where
  data := call.data
  headers := call.headers
  status := call.status
  timestamp := call.timestamp
  ttlSeconds := call.ttlSeconds
  data_lt := hdata

inductive Moment
  | tick (time : Nat)
  | headers (id : Nat) (key : CacheKey) (resp : Response)
  | complete (id now put : Nat) (answers : List Answer)
  | abandon (id : Nat)
  | traffic (a : TrafficAction)
  | restart (maxSize : Nat) (walk : List Path)

/-- A lookup reads the clock, and an entry is put by a download only. -/
def OnTime (clock : Nat) : TrafficAction → Prop
  | .memoryGet _ time => time = clock
  | .diskGet _ time => time = clock
  | .put _ _ _ => False
  | _ => True

inductive ServiceStep (S : Serde) (parseHttpDate : Str → Option Nat) (config : Config) :
    Service → Moment → Service → Prop
  | tick {s : Service} {time : Nat} :
      s.clock ≤ time → ServiceStep S parseHttpDate config s (.tick time) (s.setClock time)
  | headers {s : Service} {id : Nat} {key : CacheKey} {resp : Response} :
      s.downloads id = none →
      ServiceStep S parseHttpDate config s (.headers id key resp)
        (s.setDownload id (some ⟨key, resp, s.clock⟩))
  /-- The body has ended, and the response is put into the cache. -/
  | store {s : Service} {id now put : Nat} {answers : List Answer} {r : Received} {call : PutCall}
      {traffic : Traffic} (hdata : call.data.length < 2 ^ 63) :
      s.downloads id = some r → r.time ≤ now → now ≤ s.clock →
      putsOf (streamResponse parseHttpDate config r.key now s.clock r.resp answers).2 = [call] →
      TrafficStep S s.traffic (.put put call.key (call.entry hdata)) traffic →
      ServiceStep S parseHttpDate config s (.complete id now put answers)
        (((s.setDownload id none).setTraffic traffic).keep ⟨r, now, s.clock, call.entry hdata⟩)
  /-- The body has ended, and the response is not stored. -/
  | pass {s : Service} {id now put : Nat} {answers : List Answer} {r : Received} :
      s.downloads id = some r → r.time ≤ now → now ≤ s.clock →
      putsOf (streamResponse parseHttpDate config r.key now s.clock r.resp answers).2 = [] →
      ServiceStep S parseHttpDate config s (.complete id now put answers) (s.setDownload id none)
  | abandon {s : Service} {id : Nat} :
      ServiceStep S parseHttpDate config s (.abandon id) (s.setDownload id none)
  | traffic {s : Service} {a : TrafficAction} {traffic : Traffic} :
      OnTime s.clock a → TrafficStep S s.traffic a traffic →
      ServiceStep S parseHttpDate config s (.traffic a) (s.setTraffic traffic)
  /-- The process stops anywhere, and the cache is opened on the files that it leaves. -/
  | restart {s : Service} {maxSize : Nat} {walk : List Path} {files : FileStore Path}
      {disk : OpenCache} :
      Leaves S s.traffic files → walk.Perm files.names.toList →
      perform (DiskCache.new maxSize walk) files = (.ok disk.cache, disk.files) →
      ServiceStep S parseHttpDate config s (.restart maxSize walk)
        { s with traffic := .init (fun _ => none) disk, downloads := fun _ => none }

/-! ## Hits -/

/-- The tier that a get asks has an entry of its key. -/
inductive Finds (S : Serde) (t : Traffic) : TrafficAction → CacheKey → CacheEntry → Prop
  | memory {id time : Nat} {key : CacheKey} {entry : CacheEntry} :
      t.gets id = some ⟨key, .arrived⟩ → t.memory key = some entry →
      Finds S t (.memoryGet id time) key entry
  | disk {id time : Nat} {key : CacheKey} {entry : CacheEntry} :
      t.gets id = some ⟨key, .missed⟩ →
      (perform (DiskCache.get S key) t.disk.files).1 = .ok (some entry) →
      Finds S t (.diskGet id time) key entry

/-- The get takes this entry for its answer. -/
def Hits (t : Traffic) : TrafficAction → CacheKey → CacheEntry → Prop
  | .memoryGet id _, key, entry => t.gets id = some ⟨key, .returned (.ok (some entry))⟩
  | .diskGet id _, key, entry => ∃ put taken, t.gets id = some ⟨key, .promoting entry put taken⟩
  | _, _, _ => False

/-- What is found and has not expired at the time of the lookup. -/
def Serves (S : Serde) (clock : Nat) (t : Traffic) (a : TrafficAction) (key : CacheKey)
    (entry : CacheEntry) : Prop :=
  Finds S t a key entry ∧ entry.isExpired clock = false

section Hits

variable {S : Serde} {s t : Traffic} {a : TrafficAction} {clock : Nat} {key : CacheKey}
  {entry : CacheEntry}

/-- A copy of an entry expires with the entry. -/
theorem not_fresh_of_eq {e : CacheEntry} {time : Nat} (h : e.isExpired time = true) :
    ¬ (e = entry ∧ entry.isExpired time = false) := by
  rintro ⟨rfl, hfresh⟩
  rw [h] at hfresh
  cases hfresh

theorem afterMemoryGet_eq_returned {found : Option CacheEntry} {time now : Nat} :
    afterMemoryGet found time now = .returned (.ok (some entry)) ↔
      found = some entry ∧ entry.isExpired time = false := by
  cases found with
  | none =>
      simp [afterMemoryGet]
  | some e =>
      cases hexpired : e.isExpired time with
      | true =>
          simpa [afterMemoryGet, hexpired] using not_fresh_of_eq hexpired
      | false =>
          have hfresh : e = entry → entry.isExpired time = false := fun heq => heq ▸ hexpired
          simpa [afterMemoryGet, hexpired] using hfresh

theorem afterDiskGet_eq_promoting {r : Outcome (Option CacheEntry)} {time put now : Nat} :
    (∃ put' taken, afterDiskGet r time put now = .promoting entry put' taken) ↔
      r = .ok (some entry) ∧ entry.isExpired time = false := by
  rcases r with e | _ | e
  · simp [afterDiskGet]
  · simp [afterDiskGet]
  · cases hexpired : e.isExpired time with
    | true =>
        simpa [afterDiskGet, hexpired] using not_fresh_of_eq hexpired
    | false =>
        have hfresh : e = entry → entry.isExpired time = false := fun heq => heq ▸ hexpired
        simpa [afterDiskGet, hexpired] using hfresh

/-- A get answers with what it finds unexpired. -/
theorem hits_iff_serves (hstep : TrafficStep S s a t) (htime : OnTime clock a) :
    Hits t a key entry ↔ Serves S clock s a key entry := by
  cases hstep with
  | @memoryGet id time key' hget =>
      have hclock : time = clock := htime
      subst hclock
      have hphase : Hits (s.setGet id (some ⟨key', afterMemoryGet (s.memory key') time s.now⟩))
          (.memoryGet id time) key entry ↔
          key' = key ∧
            afterMemoryGet (s.memory key') time s.now = .returned (.ok (some entry)) := by
        simp [Hits, Traffic.setGet]
      rw [hphase, afterMemoryGet_eq_returned]
      constructor
      · rintro ⟨rfl, hfound, hfresh⟩
        exact ⟨.memory hget hfound, hfresh⟩
      · rintro ⟨hfinds, hfresh⟩
        cases hfinds with
        | memory hget' hfound =>
            rw [hget] at hget'
            cases hget'
            exact ⟨rfl, hfound, hfresh⟩
  | @diskGet id time key' hget =>
      have hclock : time = clock := htime
      subst hclock
      have hphase : Hits (s.setGet id (some ⟨key', afterDiskGet
            (perform (DiskCache.get S key') s.disk.files).1 time (s.diskPut key'.hashHex) s.now⟩))
          (.diskGet id time) key entry ↔
          key' = key ∧ ∃ put taken, afterDiskGet (perform (DiskCache.get S key') s.disk.files).1
            time (s.diskPut key'.hashHex) s.now = .promoting entry put taken := by
        simp [Hits, Traffic.setGet]
      rw [hphase, afterDiskGet_eq_promoting]
      constructor
      · rintro ⟨rfl, hfound, hfresh⟩
        exact ⟨.disk hget hfound, hfresh⟩
      · rintro ⟨hfinds, hfresh⟩
        cases hfinds with
        | disk hget' hfound =>
            rw [hget] at hget'
            cases hget'
            exact ⟨rfl, hfound, hfresh⟩
  | _ =>
      refine iff_of_false id ?_
      rintro ⟨hfinds, -⟩
      cases hfinds

end Hits

/-! ## The property and the condition -/

/-- The response says that it lives for so many seconds, whether or not the code can read it. -/
structure Received.States (config : Config) (r : Received) (seconds : Nat) : Prop where
  notApt : (config.apt.enabled && isAptRequest r.key.uri) = false
  lifetime : (deciding r.resp.headers).map Directive.stated = some seconds

/-- The end of this lifetime. -/
def Received.until (r : Received) (seconds : Nat) : Nat :=
  r.time + seconds * 10 ^ 9

/-- The directive that states these seconds is read: `Connection` does not take `Cache-Control`
away, and the last directive of this name that can be parsed gives them. -/
def Received.Reads (r : Received) (seconds : Nat) : Prop :=
  "cache-control".toList ∉ droppedNames r.resp.headers ∧
    (deciding r.resp.headers).bind (fun d => lastPlain d.name r.resp.headers) = some seconds

instance (r : Received) (seconds : Nat) : Decidable (r.Reads seconds) :=
  inferInstanceAs (Decidable (_ ∧ _))

/-- A lifetime in quotes is stated and not read. -/
example : let r : Received := ⟨exampleKey,
      ⟨200, [("cache-control".toList, .ofText "s-maxage=\"60\"".toList)]⟩, 0⟩
    r.States Config.default 60 ∧ ¬ r.Reads 60 :=
  ⟨⟨by decide +kernel, by decide +kernel⟩, by decide +kernel⟩

/-- The first source of a lifetime that can be read, of those that `filter_headers` leaves. -/
def Received.readable (parseHttpDate : Str → Option Nat) (now : Nat) (r : Received) : Option Nat :=
  let headers := filterHeaders r.resp.headers
  ((lastPlain "s-maxage".toList headers).or (lastPlain "max-age".toList headers)).or
    (expiresTtl parseHttpDate now headers)

namespace Kept

/-- The entry is a copy of this one, perhaps without all of its data. -/
def Copied (p : Kept) (key : CacheKey) (entry : CacheEntry) : Prop :=
  p.received.key.hashHex = key.hashHex ∧ p.entry.head = entry.head

variable (parseHttpDate : Str → Option Nat) (config : Config)

/-- The lifetime the response gets: what it states where that is read, and else what the next source
or the configuration gives it. -/
def granted (p : Kept) (seconds : Nat) : Nat :=
  if p.received.Reads seconds then seconds
  else (p.received.readable parseHttpDate p.judged).getD config.cache.ttlSeconds

/-- When `is_expired` says so: in the second after the lifetime that began with the end of the
body. -/
def expires (p : Kept) (seconds : Nat) : Nat :=
  p.completed + (p.granted parseHttpDate config seconds + 1) * 10 ^ 9

end Kept

/-- Every hit is with a response that was stored, and at no time later than the end of the lifetime
that the response states, from the time when its headers were received. -/
structure ServedInTime (S : Serde) (config : Config) (s : Service) (m : Moment) : Prop where
  stored : ∀ a key entry, m = .traffic a → Serves S s.clock s.traffic a key entry →
    ∃ p ∈ s.kept, p.Copied key entry
  inTime : ∀ a key entry, m = .traffic a → Serves S s.clock s.traffic a key entry →
    ∀ p ∈ s.kept, p.Copied key entry → ∀ seconds, p.received.States config seconds →
      s.clock ≤ p.received.until seconds

/-- No lookup finds a response between the end of its lifetime and the time when it is seen to have
expired. -/
def NotLate (S : Serde) (parseHttpDate : Str → Option Nat) (config : Config) (s : Service)
    (m : Moment) : Prop :=
  ∀ a key entry, m = .traffic a → Finds S s.traffic a key entry →
    ∀ p ∈ s.kept, p.Copied key entry → ∀ seconds, p.received.States config seconds →
      s.clock ≤ p.received.until seconds ∨ p.expires parseHttpDate config seconds ≤ s.clock

/-! ## What is stored -/

section Stored

variable {parseHttpDate : Str → Option Nat} {config : Config} {r : Received} {seconds : Nat}

theorem named_filterHeaders {headers : HeaderMap} (name : Str)
    (hkept : "cache-control".toList ∉ droppedNames headers) :
    named name (filterHeaders headers) = named name headers := by
  rw [named, named, directives_filterHeaders, if_neg hkept]

/-- A response states one lifetime. -/
theorem Received.States.unique {seconds' : Nat} (h : r.States config seconds)
    (h' : r.States config seconds') : seconds = seconds' :=
  Option.some.inj (h.lifetime.symm.trans h'.lifetime)

variable (parseHttpDate) in
theorem Received.Reads.parse (h : r.Reads seconds) (now : Nat) :
    parseCacheControlHeaders parseHttpDate now (filterHeaders r.resp.headers) = some seconds := by
  rcases h with ⟨hkept, hread⟩
  rcases Option.bind_eq_some_iff.1 hread with ⟨d, hd, hlast⟩
  have hsame : lastPlain d.name (filterHeaders r.resp.headers) = some seconds :=
    (lastPlain_of_named (named_filterHeaders d.name hkept)).trans hlast
  rcases deciding_cases hd with ⟨-, hname⟩ | ⟨hs, -, hname⟩
  · rw [hname] at hsame
    exact parse_of_sMaxage hsame
  · rw [hname] at hsame
    exact parse_of_maxAge ((named_filterHeaders _ hkept).trans hs) hsame

/-- A response that is no package is stored for what its headers give it, or for the default. -/
theorem storedTtl_eq_some {now ttl : Nat} {uri : Str} {headers : HeaderMap}
    (hnotApt : (config.apt.enabled && isAptRequest uri) = false)
    (h : storedTtl parseHttpDate config now uri headers = some ttl) :
    (parseCacheControlHeaders parseHttpDate now headers).getD config.cache.ttlSeconds = ttl := by
  rw [storedTtl, hnotApt] at h
  cases hparse : parseCacheControlHeaders parseHttpDate now headers with
  | none =>
      simpa [hparse] using h
  | some n =>
      cases n with
      | zero =>
          simp [hparse] at h
      | succ n =>
          simpa [hparse] using h

/-- A response is stored for the lifetime that it is granted. -/
theorem Kept.ttl_eq_granted {p : Kept} (hstates : p.received.States config seconds) {ttl : Nat}
    (httl : storedTtl parseHttpDate config p.judged p.received.key.uri
      (filterHeaders p.received.resp.headers) = some ttl) :
    ttl = p.granted parseHttpDate config seconds := by
  have hfirst := storedTtl_eq_some hstates.notApt httl
  unfold Kept.granted
  split
  · rename_i hreads
    rw [hreads.parse parseHttpDate] at hfirst
    exact hfirst.symm
  · rw [parseCacheControlHeaders_eq] at hfirst
    exact hfirst.symm

end Stored

theorem isExpired_eq_true_iff {entry : CacheEntry} {now : Nat} (h : entry.timestamp ≤ now) :
    entry.isExpired now = true ↔ entry.timestamp + (entry.ttlSeconds + 1) * 10 ^ 9 ≤ now := by
  rw [CacheEntry.isExpired, elapsedSecs, if_pos h]
  have hpos : 0 < 10 ^ 9 := by
    decide
  calc
    decide ((now - entry.timestamp) / 10 ^ 9 > entry.ttlSeconds) = true ↔
        entry.ttlSeconds + 1 ≤ (now - entry.timestamp) / 10 ^ 9 := decide_eq_true_iff
    _ ↔ (entry.ttlSeconds + 1) * 10 ^ 9 ≤ now - entry.timestamp := Nat.le_div_iff_mul_le hpos
    _ ↔ entry.timestamp + (entry.ttlSeconds + 1) * 10 ^ 9 ≤ now := by
          rw [Nat.le_sub_iff_add_le h, Nat.add_comm]

/-! ## The invariant -/

/-- What is true of everything that was stored. -/
structure Kept.Sound (parseHttpDate : Str → Option Nat) (config : Config) (clock : Nat)
    (p : Kept) : Prop where
  completed : p.completed ≤ clock
  timestamp : p.entry.timestamp = p.completed
  ttlSeconds : ∀ seconds, p.received.States config seconds →
    p.entry.ttlSeconds = p.granted parseHttpDate config seconds

/-- The hash and the head of a response that was stored. -/
def WasKept (kept : List Kept) (hash : Str) (head : EntryHead) : Prop :=
  ∃ p ∈ kept, p.received.key.hashHex = hash ∧ p.entry.head = head

structure InOrder (S : Serde) (parseHttpDate : Str → Option Nat) (config : Config) (s : Service) :
    Prop where
  copies : HoldsOnly S (WasKept s.kept) s.traffic
  sound : ∀ p ∈ s.kept, p.Sound parseHttpDate config s.clock

section Order

variable {S : Serde} {parseHttpDate : Str → Option Nat} {config : Config} {s t : Service}
  {m : Moment}

/-- What a download stores. -/
theorem Kept.sound_of_putsOf {r : Received} {call : PutCall} {now clock : Nat}
    {answers : List Answer} (hdata : call.data.length < 2 ^ 63)
    (hputs : putsOf (streamResponse parseHttpDate config r.key now clock r.resp answers).2 =
      [call]) :
    call.key = r.key ∧ Kept.Sound parseHttpDate config clock ⟨r, now, clock, call.entry hdata⟩ := by
  by_cases hstorable : Storable parseHttpDate config r.key now r.resp answers
  · obtain ⟨ttl, httl, hcall⟩ := putsOf_of_storable clock hstorable
    have heq : call = putCall r.key clock r.resp answers ttl := by
      simpa [hputs] using hcall
    subst heq
    exact ⟨rfl, Nat.le_refl _, rfl, fun seconds hstates => Kept.ttl_eq_granted hstates httl⟩
  · rw [putsOf_of_not_storable clock hstorable] at hputs
    cases hputs

namespace InOrder

theorem init (maxSize now : Nat) : InOrder S parseHttpDate config (.init maxSize now) where
  copies := .init (.empty now)
  sound := by simp [Service.init]

theorem step (h : InOrder S parseHttpDate config s) (hS : S.RoundTrip)
    (hstep : ServiceStep S parseHttpDate config s m t) : InOrder S parseHttpDate config t := by
  cases hstep with
  | tick hle =>
      refine ⟨h.copies.setDisk (h.copies.disk.setClock _), ?_⟩
      intro p hp
      have hsound := h.sound p hp
      exact { hsound with completed := Nat.le_trans hsound.completed hle }
  | headers _ =>
      exact ⟨h.copies, h.sound⟩
  | @store _ _ _ _ r call _ hdata _ _ _ hputs hput =>
      obtain ⟨hkey, hsound⟩ := Kept.sound_of_putsOf hdata hputs
      constructor
      · refine (h.copies.mono ?_).step hS hput ?_
        · rintro hash head ⟨p, hp, hcopy⟩
          exact ⟨p, List.mem_cons_of_mem _ hp, hcopy⟩
        -- the entry that is put is that of the response that was just kept
        · rintro key entry ⟨⟩
          exact ⟨_, List.mem_cons_self, by rw [hkey], rfl⟩
      · intro p hp
        rcases List.mem_cons.1 hp with rfl | hold
        · exact hsound
        · exact h.sound p hold
  | pass _ _ _ _ =>
      exact ⟨h.copies, h.sound⟩
  | abandon =>
      exact ⟨h.copies, h.sound⟩
  | @traffic a _ htime hstep =>
      refine ⟨h.copies.step hS hstep ?_, h.sound⟩
      intro key entry hbrings
      cases a with
      | put =>
          exact htime.elim
      | _ =>
          cases hbrings
  | @restart maxSize walk _ _ hleft _ hnew =>
      have hfiles := h.copies.leaves hS hleft
      have hopened := (hfiles.holds_of_shrinks (new_shrinks maxSize walk)).exec
      rw [← perform, hnew] at hopened
      exact ⟨.init hopened, h.sound⟩

/-- What a lookup finds was stored. -/
theorem wasKept (h : InOrder S parseHttpDate config s) {a : TrafficAction} {key : CacheKey}
    {entry : CacheEntry} (hfinds : Finds S s.traffic a key entry) :
    WasKept s.kept key.hashHex entry.head := by
  cases hfinds with
  | memory _ hfound =>
      exact h.copies.memory _ _ hfound
  | disk _ hfound =>
      exact h.copies.disk.get hfound

/-- A copy expires with what it is a copy of. -/
theorem isExpired_iff (h : InOrder S parseHttpDate config s) {p : Kept} (hp : p ∈ s.kept)
    {key : CacheKey} {entry : CacheEntry} (hcopy : p.Copied key entry) {seconds : Nat}
    (hstates : p.received.States config seconds) :
    entry.isExpired s.clock = true ↔ p.expires parseHttpDate config seconds ≤ s.clock := by
  have hsound := h.sound p hp
  have htimestamp : entry.timestamp = p.completed :=
    (congrArg EntryHead.timestamp hcopy.2).symm.trans hsound.timestamp
  have httl : entry.ttlSeconds = p.granted parseHttpDate config seconds :=
    (congrArg EntryHead.ttlSeconds hcopy.2).symm.trans (hsound.ttlSeconds seconds hstates)
  rw [isExpired_eq_true_iff (htimestamp ▸ hsound.completed), htimestamp, httl, Kept.expires]

/-- A step serves in time exactly when it finds nothing late. -/
theorem notLate_iff (h : InOrder S parseHttpDate config s) :
    NotLate S parseHttpDate config s m ↔ ServedInTime S config s m := by
  constructor
  · intro hnot
    constructor
    · intro a key entry _ hserves
      exact h.wasKept hserves.1
    · intro a key entry hm hserves p hp hcopy seconds hstates
      refine (hnot a key entry hm hserves.1 p hp hcopy seconds hstates).resolve_right ?_
      intro hlate
      have hexpired := (h.isExpired_iff hp hcopy hstates).2 hlate
      rw [hserves.2] at hexpired
      cases hexpired
  · intro hserved a key entry hm hfinds p hp hcopy seconds hstates
    cases hexpired : entry.isExpired s.clock with
    | true =>
        exact Or.inr ((h.isExpired_iff hp hcopy hstates).1 hexpired)
    | false =>
        exact Or.inl (hserved.inTime a key entry hm ⟨hfinds, hexpired⟩ p hp hcopy seconds hstates)

end InOrder

end Order

/-- Every hit of a run is in time exactly when no lookup finds a response late. -/
theorem servedInTime_iff {S : Serde} (hS : S.RoundTrip) (parseHttpDate : Str → Option Nat)
    (config : Config) (maxSize now : Nat) (moments : List Moment) (s : Service) :
    Run (Guarded (ServiceStep S parseHttpDate config) (NotLate S parseHttpDate config))
        (.init maxSize now) moments s ↔
      Run (Guarded (ServiceStep S parseHttpDate config) (ServedInTime S config))
        (.init maxSize now) moments s :=
  Run.guarded_congr (J := InOrder S parseHttpDate config) (fun _ _ _ hs hstep => hs.step hS hstep)
    (fun _ _ _ hs _ => hs.notLate_iff) (.init maxSize now)

/-! ## Runs of one download -/

/-- A response that lives for a minute. -/
def minuteResponse : Response where
  status := 200
  headers := [("cache-control".toList, .ofText "s-maxage=60".toList)]

def minuteReceived : Received where
  key := exampleKey
  resp := minuteResponse
  time := 0

theorem minuteReceived_states : minuteReceived.States Config.default 60 where
  notApt := by decide +kernel
  lifetime := by decide +kernel

/-- Its body takes two seconds. -/
def minuteCall : PutCall :=
  putCall exampleKey (2 * 10 ^ 9) minuteResponse [.frame (.data [104, 105])] 60

def minuteEntry : CacheEntry :=
  minuteCall.entry (by decide)

theorem putsOf_minute :
    putsOf (streamResponse (fun _ => none) Config.default minuteReceived.key (2 * 10 ^ 9)
      (2 * 10 ^ 9) minuteReceived.resp [.frame (.data [104, 105])]).2 = [minuteCall] := by
  decide +kernel

theorem first_minuteEntry : PutPhase.first minuteEntry = .memory := by
  have hsmall : ¬ 1024 * 1024 < minuteEntry.size := by
    decide +kernel
  rw [PutPhase.first, if_neg hsmall]

/-- The response is in the memory tier, and a get has arrived. -/
structure MinuteKept (time : Nat) (s : Service) : Prop where
  clock : s.clock = time
  get : s.traffic.gets 0 = some ⟨exampleKey, .arrived⟩
  memory : s.traffic.memory exampleKey = some minuteEntry
  kept : s.kept = [⟨minuteReceived, 2 * 10 ^ 9, 2 * 10 ^ 9, minuteEntry⟩]

def minuteMoments (time : Nat) : List Moment :=
  [.headers 0 exampleKey minuteResponse, .tick (2 * 10 ^ 9),
    .complete 0 (2 * 10 ^ 9) 0 [.frame (.data [104, 105])], .traffic (.memoryPut 0),
    .traffic (.get 0 exampleKey), .tick time]

/-- It is kept in this way without a lookup. -/
theorem run_minute {time : Nat} (htime : 2 * 10 ^ 9 ≤ time) :
    ∃ s, Run (Guarded (ServiceStep exampleSerde (fun _ => none) Config.default)
        (NotLate exampleSerde (fun _ => none) Config.default)) (.init 1024 0)
        (minuteMoments time) s ∧
      MinuteKept time s := by
  have hheaders : Guarded (ServiceStep exampleSerde (fun _ => none) Config.default)
      (NotLate exampleSerde (fun _ => none) Config.default) (.init 1024 0)
      (.headers 0 exampleKey minuteResponse) _ :=
    ⟨.headers rfl, by rintro _ _ _ ⟨⟩⟩
  have hloaded := (Run.single hheaders).snoc
    ⟨.tick (Nat.zero_le (2 * 10 ^ 9)), by rintro _ _ _ ⟨⟩⟩
  have hput := hloaded.snoc
    ⟨@ServiceStep.store _ _ _ _ 0 _ 0 _ minuteReceived _ _ (by decide) rfl (Nat.zero_le _)
      (Nat.le_refl _) putsOf_minute (.put rfl), by rintro _ _ _ ⟨⟩⟩
  -- a small entry goes to the memory tier at once
  have hsmall : some (PendingPut.mk exampleKey minuteEntry (.first minuteEntry)) =
      some ⟨exampleKey, minuteEntry, .memory⟩ := by
    rw [first_minuteEntry]
  have hstored := hput.snoc
    ⟨.traffic (a := .memoryPut 0) trivial (.memoryPut hsmall), by rintro _ _ _ ⟨⟩ ⟨⟩⟩
  have hasked := hstored.snoc
    ⟨.traffic (a := .get 0 exampleKey) trivial (.get rfl), by rintro _ _ _ ⟨⟩ ⟨⟩⟩
  have hlater := hasked.snoc ⟨.tick htime, by rintro _ _ _ ⟨⟩⟩
  exact ⟨_, hlater, rfl, rfl, rfl, rfl⟩

/-- After a minute, and not a nanosecond later, it is served. -/
theorem servedInTime_iff_minute :
    ∃ moments s, Run (Guarded (ServiceStep exampleSerde (fun _ => none) Config.default)
        (ServedInTime exampleSerde Config.default)) (.init 1024 0) moments s ∧
      Hits s.traffic (.memoryGet 0 (60 * 10 ^ 9)) exampleKey minuteEntry := by
  obtain ⟨s, hrun, hkept⟩ := @run_minute (60 * 10 ^ 9) (by decide)
  have hlookup : TrafficStep exampleSerde s.traffic (.memoryGet 0 (60 * 10 ^ 9)) _ :=
    .memoryGet hkept.get
  have htime : OnTime s.clock (.memoryGet 0 (60 * 10 ^ 9)) :=
    hkept.clock.symm
  have hnot : NotLate exampleSerde (fun _ => none) Config.default s
      (.traffic (.memoryGet 0 (60 * 10 ^ 9))) := by
    intro a key entry _ _ p hp _ seconds hstates
    rw [hkept.kept, List.mem_singleton] at hp
    subst hp
    have hseconds : seconds = 60 := hstates.unique minuteReceived_states
    rw [hkept.clock, hseconds]
    exact Or.inl (by decide)
  have hserved : Serves exampleSerde s.clock s.traffic (.memoryGet 0 (60 * 10 ^ 9)) exampleKey
      minuteEntry := by
    refine ⟨.memory hkept.get hkept.memory, ?_⟩
    rw [hkept.clock]
    decide +kernel
  refine ⟨_, _, (servedInTime_iff exampleSerde_roundTrip (fun _ => none) Config.default 1024 0
    _ _).1 (hrun.snoc ⟨.traffic htime hlookup, hnot⟩), ?_⟩
  exact (hits_iff_serves hlookup htime).2 hserved

/-- Its headers came at 0, and after 62.5 seconds it is still served. -/
theorem not_servedInTime_minute :
    ¬ ∀ (S : Serde) (parseHttpDate : Str → Option Nat) (config : Config) (maxSize now : Nat)
      (moments : List Moment) (s t : Service) (m : Moment), S.RoundTrip →
      Run (ServiceStep S parseHttpDate config) (.init maxSize now) moments s →
      ServiceStep S parseHttpDate config s m t → ServedInTime S config s m := by
  intro h
  obtain ⟨s, hrun, hkept⟩ := @run_minute (625 * 10 ^ 8) (by decide)
  have hstep : ServiceStep exampleSerde (fun _ => none) Config.default s
      (.traffic (.memoryGet 0 (625 * 10 ^ 8))) _ :=
    .traffic hkept.clock.symm (.memoryGet hkept.get)
  have hserved : Serves exampleSerde s.clock s.traffic (.memoryGet 0 (625 * 10 ^ 8)) exampleKey
      minuteEntry := by
    refine ⟨.memory hkept.get hkept.memory, ?_⟩
    rw [hkept.clock]
    decide +kernel
  have hmem : ⟨minuteReceived, 2 * 10 ^ 9, 2 * 10 ^ 9, minuteEntry⟩ ∈ s.kept := by
    rw [hkept.kept]
    exact List.mem_singleton_self _
  have hle := (h _ _ _ 1024 0 _ s _ _ exampleSerde_roundTrip hrun.of_guarded hstep).inTime _ _ _ rfl
    hserved _ hmem ⟨rfl, rfl⟩ 60 minuteReceived_states
  rw [hkept.clock] at hle
  exact absurd hle (by decide)

end Proxy
end Squiddish
