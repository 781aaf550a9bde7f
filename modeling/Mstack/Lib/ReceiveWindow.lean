import Mathlib

/-!
# The receiving end of a stream

A receiver that takes a stream in order and hands it on in pieces of any size:
the **stream** accepted so far and how much of it has been handed on.  What
lies behind that position is buffered.

    stream   |-- delivered --|-- buffered --|
             0             handed         length

Two operations move a window: `accept` appends to the stream, `hand` moves the
front of the buffer across the position.

### What is load-bearing

As with the sending end, a real receiver stores the buffer and has forgotten
what it delivered.  The window keeps both, and conservation — what was accepted
is what was delivered followed by what is buffered, each element once and in
order — is `delivered_append_buffered`, true of every window.  A program
conserves its stream if it can be described by a window at all; the proof
obligations are the four lemmas that say what the two operations do to the two
parts.
-/

universe u

/-- A stream and how much of it has been handed on.  That no more was handed on
than was accepted is a field. -/
structure ReceiveWindow (α : Type u) where
  stream : List α
  handed : ℕ
  handed_le : handed ≤ stream.length

namespace ReceiveWindow

variable {α : Type u}

/-- What the reader has. -/
def delivered (w : ReceiveWindow α) : List α := w.stream.take w.handed

/-- What waits for a reader. -/
def buffered (w : ReceiveWindow α) : List α := w.stream.drop w.handed

/-- A window with nothing handed on. -/
def ofBuffer (xs : List α) : ReceiveWindow α := ⟨xs, 0, Nat.zero_le _⟩

/-- Append to the stream.  Nothing is handed on by it. -/
def accept (w : ReceiveWindow α) (xs : List α) : ReceiveWindow α where
  stream := w.stream ++ xs
  handed := w.handed
  handed_le := w.handed_le.trans (by simp)

/-- Hand on the next `n` elements, which must be buffered. -/
def hand (w : ReceiveWindow α) (n : ℕ) (h : n ≤ w.buffered.length) : ReceiveWindow α where
  stream := w.stream
  handed := w.handed + n
  handed_le := by
    have := w.handed_le
    rw [buffered, List.length_drop] at h
    omega

section Lemmas

variable (w : ReceiveWindow α)

/-- **Conservation**: what was accepted is what was delivered, followed by what
is buffered. -/
theorem delivered_append_buffered : w.delivered ++ w.buffered = w.stream :=
  List.take_append_drop _ _

/-- As much has been delivered as the position says. -/
theorem delivered_length : w.delivered.length = w.handed := by
  rw [delivered, List.length_take, Nat.min_eq_left w.handed_le]

/-- Conservation, in numbers. -/
theorem handed_add_buffered : w.handed + w.buffered.length = w.stream.length := by
  have := w.handed_le
  rw [buffered, List.length_drop]
  omega

@[simp] theorem ofBuffer_delivered (xs : List α) : (ofBuffer xs).delivered = [] := rfl
@[simp] theorem ofBuffer_buffered (xs : List α) : (ofBuffer xs).buffered = xs := rfl

/-- Accepting delivers nothing. -/
theorem delivered_accept (xs : List α) : (w.accept xs).delivered = w.delivered := by
  simp only [delivered, accept, List.take_append_of_le_length w.handed_le]

/-- What is accepted goes to the end of the buffer. -/
theorem buffered_accept (xs : List α) : (w.accept xs).buffered = w.buffered ++ xs := by
  simp only [buffered, accept, List.drop_append_of_le_length w.handed_le]

/-- What is handed on continues what was delivered. -/
theorem delivered_hand (n : ℕ) (h : n ≤ w.buffered.length) :
    (w.hand n h).delivered = w.delivered ++ w.buffered.take n := by
  simp only [delivered, hand, buffered, List.take_add]

/-- What is handed on leaves the front of the buffer. -/
theorem buffered_hand (n : ℕ) (h : n ≤ w.buffered.length) :
    (w.hand n h).buffered = w.buffered.drop n := by
  simp only [buffered, hand, List.drop_drop]

end Lemmas

end ReceiveWindow
