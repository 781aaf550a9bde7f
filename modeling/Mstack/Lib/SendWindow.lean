import Mathlib

/-!
# The sending end of a stream

A sender that keeps what it has not been told about: the **stream** written so
far and two positions in it.  The first `acked` elements are confirmed and
forgotten, the first `sent` have been transmitted; what lies between is in
flight, what lies behind is unsent.  The order `acked ≤ sent ≤ length` is part
of the type.

    stream   |-- confirmed --|-- in flight --|-- unsent --|
             0             acked           sent        length
                             |---------- queue -----------|

Three operations move a window — `write`, `send`, `ack` — and the lemmas say
what each does to the *queue* (everything not yet confirmed) and to the
*emitted* prefix.

### What is load-bearing

A real sender stores the queue and two counters and has forgotten the stream.
The window is what it *stands for*: the history is kept, so that "nothing was
skipped, repeated or reordered" is an equation between what was emitted and a
prefix of what was written, and the queue is derived from it.  `send` and `ack`
take the bound as an argument, not as a test: a program that confirms more than
it sent has no counterpart here, and showing that it has one is the proof that
it does not.

The numbers are natural numbers.  How a program stores them, and that its words
do not wrap, is for the program to show (`Lib.SerialNumber`).
-/

universe u

/-- A stream, how much of it is confirmed and how much has been transmitted.
The order of the two positions is a field of each, so that no window confirms
what it did not send. -/
structure SendWindow (α : Type u) where
  stream : List α
  acked : ℕ
  sent : ℕ
  acked_le : acked ≤ sent
  sent_le : sent ≤ stream.length

namespace SendWindow

variable {α : Type u}

/-- What has to be kept: everything not yet confirmed. -/
def queue (w : SendWindow α) : List α := w.stream.drop w.acked

/-- What has been transmitted. -/
def emitted (w : SendWindow α) : List α := w.stream.take w.sent

/-- What has not been transmitted. -/
def unsent (w : SendWindow α) : List α := w.stream.drop w.sent

/-- Transmitted but not confirmed. -/
def inFlight (w : SendWindow α) : ℕ := w.sent - w.acked

/-- The window over an empty stream. -/
def start : SendWindow α := ⟨[], 0, 0, le_rfl, le_rfl⟩

/-- Append to the stream.  What was written before is neither sent nor
confirmed by it. -/
def write (w : SendWindow α) (xs : List α) : SendWindow α where
  stream := w.stream ++ xs
  acked := w.acked
  sent := w.sent
  acked_le := w.acked_le
  sent_le := w.sent_le.trans (by simp)

/-- Transmit the next `n` elements, which must be there. -/
def send (w : SendWindow α) (n : ℕ) (h : n ≤ w.unsent.length) : SendWindow α where
  stream := w.stream
  acked := w.acked
  sent := w.sent + n
  acked_le := w.acked_le.trans (Nat.le_add_right _ _)
  sent_le := by
    have := w.sent_le
    rw [unsent, List.length_drop] at h
    omega

/-- Confirm the next `n` elements, which must be in flight. -/
def ack (w : SendWindow α) (n : ℕ) (h : n ≤ w.inFlight) : SendWindow α where
  stream := w.stream
  acked := w.acked + n
  sent := w.sent
  acked_le := by
    have := w.acked_le
    rw [inFlight] at h
    omega
  sent_le := w.sent_le

section Lemmas

variable (w : SendWindow α)

/-- The queue holds everything behind the confirmed prefix. -/
theorem queue_length : w.queue.length = w.stream.length - w.acked := List.length_drop

/-- What is unsent is everything behind the transmitted prefix. -/
theorem unsent_length : w.unsent.length = w.stream.length - w.sent := List.length_drop

/-- As much has been emitted as the position says. -/
theorem emitted_length : w.emitted.length = w.sent := by
  rw [emitted, List.length_take, Nat.min_eq_left w.sent_le]

/-- What is in flight is still queued: nothing is forgotten before it is
confirmed. -/
theorem inFlight_le_queue : w.inFlight ≤ w.queue.length := by
  have := w.sent_le
  rw [queue_length, inFlight]
  omega

/-- The queue is what is in flight and what is unsent. -/
theorem queue_length_sub : w.queue.length - w.inFlight = w.unsent.length := by
  have hack := w.acked_le
  have hsent := w.sent_le
  rw [queue_length, unsent_length, inFlight]
  omega

/-- Behind what is in flight the queue holds what is unsent. -/
theorem queue_drop_inFlight : w.queue.drop w.inFlight = w.unsent := by
  have := w.acked_le
  rw [queue, unsent, inFlight, List.drop_drop]
  congr 1
  omega

/-- Nothing is queued: everything was confirmed. -/
theorem acked_eq_of_queue_nil (h : w.queue = []) : w.acked = w.sent := by
  have hlen := congrArg List.length h
  have hack := w.acked_le
  have hsent := w.sent_le
  rw [queue_length, List.length_nil] at hlen
  omega

@[simp] theorem start_queue : (start : SendWindow α).queue = [] := rfl
@[simp] theorem start_emitted : (start : SendWindow α).emitted = [] := rfl

/-- What is written goes to the end of the queue. -/
@[simp] theorem queue_write (xs : List α) : (w.write xs).queue = w.queue ++ xs := by
  have hle : w.acked ≤ w.stream.length := w.acked_le.trans w.sent_le
  simp only [queue, write, List.drop_append_of_le_length hle]

/-- Writing transmits nothing. -/
@[simp] theorem emitted_write (xs : List α) : (w.write xs).emitted = w.emitted := by
  simp only [emitted, write, List.take_append_of_le_length w.sent_le]

/-- Transmitting forgets nothing. -/
@[simp] theorem queue_send (n : ℕ) (h : n ≤ w.unsent.length) :
    (w.send n h).queue = w.queue := rfl

/-- **What is transmitted continues the emitted prefix**, without a gap. -/
theorem emitted_send (n : ℕ) (h : n ≤ w.unsent.length) :
    (w.send n h).emitted = w.emitted ++ w.unsent.take n := by
  simp only [emitted, send, unsent, List.take_add]

/-- What is confirmed is dropped from the front of the queue. -/
theorem queue_ack (n : ℕ) (h : n ≤ w.inFlight) : (w.ack n h).queue = w.queue.drop n := by
  simp only [queue, ack, List.drop_drop]

/-- A confirmation takes back nothing that was transmitted. -/
@[simp] theorem emitted_ack (n : ℕ) (h : n ≤ w.inFlight) :
    (w.ack n h).emitted = w.emitted := rfl

end Lemmas

end SendWindow
