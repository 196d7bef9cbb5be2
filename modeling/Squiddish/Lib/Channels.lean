import Mathlib.Algebra.GroupWithZero.Nat
import Mathlib.Data.List.Basic
import Mathlib.Data.Nat.Log

/-!
# Channels — a bounded broadcast channel and a watch channel

The two message channels of the asynchronous runtime, as pure data:

* `Broadcast α` : every receiver sees the messages sent after it subscribed, in order.  Only the
  newest `capacity` messages are kept; a receiver further behind is told how many it lost.
* `Watch α` : one current value.  Sending without a live receiver leaves the value unchanged.

A broadcast receiver is a cursor into the sequence of all messages ever sent, so a channel with
many receivers needs no state per receiver.
-/

namespace Squiddish
namespace Lib

variable {α : Type*}

/-! ## Broadcast -/

structure Broadcast (α : Type*) where
  /-- Number of messages the ring buffer keeps. -/
  capacity : Nat
  /-- Every message sent so far, oldest first. -/
  log : List α
  /-- Number of live sender handles. -/
  senders : Nat
  deriving DecidableEq, Repr

/-- The position of the next message a receiver has not taken. -/
structure Receiver where
  next : Nat
  deriving DecidableEq, Repr

inductive RecvResult (α : Type*)
  | value (a : α)
  | lagged (missed : Nat)
  | closed
  | empty
  deriving DecidableEq, Repr

namespace Broadcast

/-- The buffer size for a requested capacity: the next power of two. -/
def ringSize (capacity : Nat) : Nat :=
  2 ^ Nat.clog 2 capacity

/-- A fresh channel with one sender handle. -/
def channel (capacity : Nat) : Broadcast α :=
  { capacity := ringSize capacity, log := [], senders := 1 }

def cloneSender (b : Broadcast α) : Broadcast α :=
  { b with senders := b.senders + 1 }

def dropSender (b : Broadcast α) : Broadcast α :=
  { b with senders := b.senders - 1 }

def subscribe (b : Broadcast α) : Receiver :=
  { next := b.log.length }

def send (b : Broadcast α) (a : α) : Broadcast α :=
  { b with log := b.log ++ [a] }

/-- The messages a receiver has still to take. -/
def pending (b : Broadcast α) (rx : Receiver) : List α :=
  b.log.drop rx.next

/-- A receiver is behind by more than the buffer keeps. -/
def Lags (b : Broadcast α) (rx : Receiver) : Prop :=
  rx.next + b.capacity < b.log.length

instance (b : Broadcast α) (rx : Receiver) : Decidable (b.Lags rx) := by
  unfold Lags
  infer_instance

/-- Take the next message.  A receiver that lags is moved to the oldest message kept. -/
def recv (b : Broadcast α) (rx : Receiver) : RecvResult α × Receiver :=
  if b.Lags rx then
    (.lagged (b.log.length - b.capacity - rx.next), { next := b.log.length - b.capacity })
  else
    match b.pending rx with
    | a :: _ => (.value a, { next := rx.next + 1 })
    | [] => (if b.senders = 0 then .closed else .empty, rx)

@[simp] theorem log_cloneSender (b : Broadcast α) : b.cloneSender.log = b.log := rfl

@[simp] theorem log_dropSender (b : Broadcast α) : b.dropSender.log = b.log := rfl

@[simp] theorem log_send (b : Broadcast α) (a : α) : (b.send a).log = b.log ++ [a] := rfl

@[simp] theorem capacity_dropSender (b : Broadcast α) : b.dropSender.capacity = b.capacity := rfl

@[simp] theorem capacity_send (b : Broadcast α) (a : α) : (b.send a).capacity = b.capacity := rfl

@[simp] theorem senders_send (b : Broadcast α) (a : α) : (b.send a).senders = b.senders := rfl

@[simp] theorem pending_dropSender (b : Broadcast α) (rx : Receiver) :
    b.dropSender.pending rx = b.pending rx := rfl

/-- A receiver that has not run ahead of the channel sees new messages after those it has still
to take. -/
theorem pending_of_log_append {b b' : Broadcast α} {rx : Receiver} {more : List α}
    (h : rx.next ≤ b.log.length) (hlog : b'.log = b.log ++ more) :
    b'.pending rx = b.pending rx ++ more := by
  simp [pending, hlog, List.drop_append_of_le_length h]

theorem pending_subscribe (b : Broadcast α) : b.pending b.subscribe = [] := by
  simp [pending, subscribe]

theorem recv_of_lags {b : Broadcast α} {rx : Receiver} (h : b.Lags rx) :
    b.recv rx =
      (.lagged (b.log.length - b.capacity - rx.next), { next := b.log.length - b.capacity }) := by
  simp [recv, h]

theorem recv_of_pending_cons {b : Broadcast α} {rx : Receiver} {a : α} {as : List α}
    (h : ¬ b.Lags rx) (hp : b.pending rx = a :: as) :
    b.recv rx = (.value a, { next := rx.next + 1 }) := by
  simp [recv, h, hp]

theorem recv_of_pending_nil {b : Broadcast α} {rx : Receiver}
    (h : ¬ b.Lags rx) (hp : b.pending rx = []) :
    b.recv rx = (if b.senders = 0 then .closed else .empty, rx) := by
  simp [recv, h, hp]

/-- Taking a message leaves the rest of what was pending. -/
theorem pending_advance {b : Broadcast α} {rx : Receiver} {a : α} {as : List α}
    (hp : b.pending rx = a :: as) :
    b.pending { next := rx.next + 1 } = as := by
  have htail : b.log.drop (rx.next + 1) = (b.log.drop rx.next).tail := by
    simp
  have hp' : b.log.drop rx.next = a :: as := hp
  simp [pending, htail, hp']

theorem next_lt_of_pending_cons {b : Broadcast α} {rx : Receiver} {a : α} {as : List α}
    (hp : b.pending rx = a :: as) : rx.next < b.log.length := by
  by_contra hge
  have hnil : b.pending rx = [] := List.drop_eq_nil_of_le (Nat.le_of_not_lt hge)
  simp [hnil] at hp

end Broadcast

/-! ## Watch -/

structure Watch (α : Type*) where
  value : α
  /-- Number of live receivers. -/
  receivers : Nat
  /-- Whether the sender is still alive. -/
  senderAlive : Bool
  deriving DecidableEq, Repr

inductive WaitResult (α : Type*)
  | ready (a : α)
  | pending
  | closed
  deriving DecidableEq, Repr

namespace Watch

/-- A fresh channel together with its first receiver. -/
def channel (a : α) : Watch α :=
  { value := a, receivers := 1, senderAlive := true }

def subscribe (w : Watch α) : Watch α :=
  { w with receivers := w.receivers + 1 }

def dropReceiver (w : Watch α) : Watch α :=
  { w with receivers := w.receivers - 1 }

def dropSender (w : Watch α) : Watch α :=
  { w with senderAlive := false }

/-- Replace the value.  Without a live receiver the send fails and the value stays. -/
def send (w : Watch α) (a : α) : Watch α :=
  if w.receivers = 0 then w else { w with value := a }

/-- Wait until the value matches.  The wait fails only when it does not and the sender is gone. -/
def waitFor (w : Watch α) (p : α → Bool) : WaitResult α :=
  if p w.value then .ready w.value
  else if w.senderAlive then .pending
  else .closed

@[simp] theorem value_subscribe (w : Watch α) : w.subscribe.value = w.value := rfl

@[simp] theorem value_dropReceiver (w : Watch α) : w.dropReceiver.value = w.value := rfl

@[simp] theorem value_dropSender (w : Watch α) : w.dropSender.value = w.value := rfl

theorem value_send_of_pos {w : Watch α} (h : 0 < w.receivers) (a : α) :
    (w.send a).value = a := by
  simp [send, Nat.ne_of_gt h]

theorem value_send (w : Watch α) (a : α) :
    (w.send a).value = a ∨ (w.send a).value = w.value := by
  by_cases h : w.receivers = 0
  · exact Or.inr (by simp [send, h])
  · exact Or.inl (by simp [send, h])

@[simp] theorem receivers_send (w : Watch α) (a : α) : (w.send a).receivers = w.receivers := by
  unfold send
  split <;> rfl

theorem waitFor_eq_ready {w : Watch α} {p : α → Bool} {a : α} (h : w.waitFor p = .ready a) :
    w.value = a ∧ p a = true := by
  by_cases hp : p w.value = true
  · have hready : w.value = a := by
      simpa [waitFor, hp] using h
    exact ⟨hready, hready ▸ hp⟩
  · by_cases hs : w.senderAlive = true
    · simp [waitFor, hp, hs] at h
    · simp [waitFor, hp, hs] at h

theorem waitFor_eq_closed {w : Watch α} {p : α → Bool} (h : w.waitFor p = .closed) :
    p w.value = false ∧ w.senderAlive = false := by
  by_cases hp : p w.value = true
  · simp [waitFor, hp] at h
  · by_cases hs : w.senderAlive = true
    · simp [waitFor, hp, hs] at h
    · exact ⟨by simpa using hp, by simpa using hs⟩

end Watch

end Lib
end Squiddish
