import Squiddish.Http
import Squiddish.Lib.Channels

/-!
# Downloads — the channels of one download and the body a client polls

`cache/inflight.rs` keeps for every running download a broadcast channel with the chunks, the
list of all chunks so far, and a watch channel with the response headers.
`proxy/streaming.rs` serves a client from the list it got on joining and then from its receiver.
-/

namespace Squiddish
namespace Inflight

open Lib

/-! ## What the channels carry -/

inductive DownloadChunk
  | data (bytes : Bytes)
  | complete
  | error (text : Str)
  deriving DecidableEq, Repr

structure ResponseMeta where
  status : Nat
  headers : List (Str × Str)
  deriving DecidableEq, Repr

abbrev ResponseMetaResult := Except Str ResponseMeta

/-- The data frames among the messages of a channel, in order. -/
def dataOf (chunks : List DownloadChunk) : List Bytes :=
  chunks.filterMap (fun
    | .data bytes => some bytes
    | _ => none)

@[simp] theorem dataOf_nil : dataOf [] = [] := rfl

@[simp] theorem dataOf_append (xs ys : List DownloadChunk) :
    dataOf (xs ++ ys) = dataOf xs ++ dataOf ys := by
  simp [dataOf]

@[simp] theorem dataOf_cons_data (b : Bytes) (xs : List DownloadChunk) :
    dataOf (.data b :: xs) = b :: dataOf xs := rfl

@[simp] theorem dataOf_cons_complete (xs : List DownloadChunk) :
    dataOf (.complete :: xs) = dataOf xs := rfl

@[simp] theorem dataOf_cons_error (text : Str) (xs : List DownloadChunk) :
    dataOf (.error text :: xs) = dataOf xs := rfl

@[simp] theorem dataOf_map_data (bs : List Bytes) : dataOf (bs.map .data) = bs := by
  induction bs with
  | nil =>
      rfl
  | cons b bs ih =>
      simp [ih]

/-! ## The state of one download -/

structure DownloadState where
  sender : Broadcast DownloadChunk
  accumulated : List Bytes
  metaTx : Watch (Option ResponseMetaResult)
  deriving DecidableEq

namespace DownloadState

/-- The channels `join_or_start_download` creates: one sender handle stays in the registry, the
clone goes to the task. -/
def new : DownloadState :=
  { sender := (Broadcast.channel 1000).cloneSender
    accumulated := []
    metaTx := Watch.channel none }

/-- `add_chunk`: the list and the channel grow under one lock. -/
def addChunk (st : DownloadState) (chunk : Bytes) : DownloadState :=
  { st with
    accumulated := st.accumulated ++ [chunk]
    sender := st.sender.send (.data chunk) }

/-- `set_response_meta` and `set_response_error`: the result of the send is ignored. -/
def publish (st : DownloadState) (r : ResponseMetaResult) : DownloadState :=
  { st with metaTx := st.metaTx.send (some r) }

/-- The final message of the task, sent on its own handle. -/
def report (st : DownloadState) (chunk : DownloadChunk) : DownloadState :=
  { st with sender := st.sender.send chunk }

/-- A client subscribes to the headers. -/
def subscribeMeta (st : DownloadState) : DownloadState :=
  { st with metaTx := st.metaTx.subscribe }

/-- A client drops its receiver for the headers. -/
def dropMeta (st : DownloadState) : DownloadState :=
  { st with metaTx := st.metaTx.dropReceiver }

/-- The registry drops its handles. -/
def unregister (st : DownloadState) : DownloadState :=
  { st with sender := st.sender.dropSender, metaTx := st.metaTx.dropSender }

/-- The task drops its handle. -/
def dropTask (st : DownloadState) : DownloadState :=
  { st with sender := st.sender.dropSender }

end DownloadState

/-! ## The body a client polls -/

structure StreamingBody where
  stream : Receiver
  initialChunks : List Bytes
  initialIndex : Nat
  finished : Bool
  deriving DecidableEq, Repr

inductive PollResult
  | pending
  | frame (bytes : Bytes)
  | error (text : Str)
  | done
  deriving DecidableEq, Repr

namespace StreamingBody

def new (receiver : Receiver) (initialChunks : List Bytes) : StreamingBody :=
  { stream := receiver, initialChunks := initialChunks, initialIndex := 0, finished := false }

def laggedText (missed : Nat) : Str :=
  "Stream lagged by ".toList ++ (toString missed).toList ++ " messages".toList

/-- `poll_frame`. -/
def pollFrame (this : StreamingBody) (channel : Broadcast DownloadChunk) :
    PollResult × StreamingBody :=
  if this.finished then
    (.done, this)
  else
    match this.initialChunks[this.initialIndex]? with
    | some chunk => (.frame chunk, { this with initialIndex := this.initialIndex + 1 })
    | none =>
        match channel.recv this.stream with
        | (.value (.data bytes), rx) => (.frame bytes, { this with stream := rx })
        | (.value .complete, rx) => (.done, { this with stream := rx, finished := true })
        | (.value (.error text), rx) => (.error text, { this with stream := rx, finished := true })
        -- the client is further behind than the channel keeps
        | (.lagged n, rx) => (.error (laggedText n), { this with stream := rx, finished := true })
        -- all senders are gone: the body ends as if it were complete
        | (.closed, rx) => (.done, { this with stream := rx, finished := true })
        | (.empty, rx) => (.pending, { this with stream := rx })

/-- The data frames the body can still give: the rest of its initial chunks, then the data among
the messages its receiver has still to take. -/
def remaining (this : StreamingBody) (channel : Broadcast DownloadChunk) : List Bytes :=
  this.initialChunks.drop this.initialIndex ++ dataOf (channel.pending this.stream)

/-- All initial chunks have been served. -/
def Drained (this : StreamingBody) : Prop :=
  this.initialChunks.length ≤ this.initialIndex

/-! ### What one poll can do -/

/-- The outcomes of `pollFrame`, one for each way through it. -/
inductive Polled (this : StreamingBody) (channel : Broadcast DownloadChunk) :
    PollResult → StreamingBody → Prop
  | finished : this.finished = true → Polled this channel .done this
  | initial {chunk : Bytes} :
      this.finished = false → this.initialChunks[this.initialIndex]? = some chunk →
      Polled this channel (.frame chunk) { this with initialIndex := this.initialIndex + 1 }
  | live {bytes : Bytes} {rest : List DownloadChunk} :
      this.finished = false → this.Drained → ¬ channel.Lags this.stream →
      channel.pending this.stream = .data bytes :: rest →
      Polled this channel (.frame bytes) { this with stream := { next := this.stream.next + 1 } }
  | complete {rest : List DownloadChunk} :
      this.finished = false → this.Drained → ¬ channel.Lags this.stream →
      channel.pending this.stream = .complete :: rest →
      Polled this channel .done
        { this with stream := { next := this.stream.next + 1 }, finished := true }
  | error {text : Str} {rest : List DownloadChunk} :
      this.finished = false → this.Drained → ¬ channel.Lags this.stream →
      channel.pending this.stream = .error text :: rest →
      Polled this channel (.error text)
        { this with stream := { next := this.stream.next + 1 }, finished := true }
  | lagged :
      this.finished = false → this.Drained → channel.Lags this.stream →
      Polled this channel
        (.error (laggedText (channel.log.length - channel.capacity - this.stream.next)))
        { this with
          stream := { next := channel.log.length - channel.capacity }, finished := true }
  | closed :
      this.finished = false → this.Drained → ¬ channel.Lags this.stream →
      channel.pending this.stream = [] → channel.senders = 0 →
      Polled this channel .done { this with finished := true }
  | empty :
      this.finished = false → this.Drained → ¬ channel.Lags this.stream →
      channel.pending this.stream = [] → channel.senders ≠ 0 →
      Polled this channel .pending this

theorem polled_pollFrame (this : StreamingBody) (channel : Broadcast DownloadChunk) :
    Polled this channel (this.pollFrame channel).1 (this.pollFrame channel).2 := by
  cases hfin : this.finished with
  | true =>
      have hpolled : Polled this channel .done this := .finished hfin
      simpa [pollFrame, hfin] using hpolled
  | false =>
      cases hget : this.initialChunks[this.initialIndex]? with
      | some chunk =>
          have hpolled : Polled this channel (.frame chunk)
              { this with initialIndex := this.initialIndex + 1 } := .initial hfin hget
          simpa [pollFrame, hfin, hget] using hpolled
      | none =>
          -- all initial chunks are served, so the receiver is asked
          have hdrained : this.Drained := List.getElem?_eq_none_iff.1 hget
          by_cases hlag : channel.Lags this.stream
          · simpa [pollFrame, hfin, hget, Broadcast.recv_of_lags hlag] using
              Polled.lagged hfin hdrained hlag
          · cases hpend : channel.pending this.stream with
            | nil =>
                by_cases hsend : channel.senders = 0
                · simpa [pollFrame, hfin, hget, Broadcast.recv_of_pending_nil hlag hpend, hsend]
                    using Polled.closed hfin hdrained hlag hpend hsend
                · have hpoll : this.pollFrame channel = (.pending, this) := by
                    simp only [pollFrame, hget, Broadcast.recv_of_pending_nil hlag hpend,
                      if_neg hsend]
                    rw [if_neg (by simp [hfin])]
                  rw [hpoll]
                  exact Polled.empty hfin hdrained hlag hpend hsend
            | cons a rest =>
                have hrecv := Broadcast.recv_of_pending_cons hlag hpend
                cases a with
                | data bytes =>
                    simpa [pollFrame, hfin, hget, hrecv] using
                      Polled.live hfin hdrained hlag hpend
                | complete =>
                    simpa [pollFrame, hfin, hget, hrecv] using
                      Polled.complete hfin hdrained hlag hpend
                | error text =>
                    simpa [pollFrame, hfin, hget, hrecv] using
                      Polled.error hfin hdrained hlag hpend

/-- A frame is the first of the frames the body can still give. -/
theorem remaining_of_frame {this body : StreamingBody} {channel : Broadcast DownloadChunk}
    {bytes : Bytes} (h : Polled this channel (.frame bytes) body) :
    this.remaining channel = bytes :: body.remaining channel := by
  cases h with
  | initial _ hget =>
      rcases List.getElem?_eq_some_iff.1 hget with ⟨hlt, hget⟩
      have hdrop := List.drop_eq_getElem_cons hlt
      simp [remaining, hdrop, hget]
  | live _ hdrained _ hpend =>
      have hdrop : this.initialChunks.drop this.initialIndex = [] := List.drop_eq_nil_of_le hdrained
      simp [remaining, hdrop, hpend, Broadcast.pending_advance hpend]

end StreamingBody

end Inflight
end Squiddish
