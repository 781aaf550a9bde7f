import Mathlib

/-!
# The bounded circular buffer

A sequence container with a fixed number of slots, in the operations a byte
queue needs.  The contents are a list and the bound is a field of the type, so
that a buffer holding more than its capacity cannot be written down.

* `insertEnd` — append; on overflow the *oldest* elements are overwritten.
* `eraseBegin` — drop elements from the front.
* `resize` — truncate or pad at the back.  A new size above the capacity
  **raises the capacity**, it does not overwrite.
* `overwrite` — assign through the iterators from a position on; the size does
  not change.

### The two ways to append

`insertEnd` and `resize` differ where the buffer is full, and they differ
silently: the first forgets the oldest elements, the second grows past the
capacity the buffer was made with.  Neither reports anything.  A program that
means to stay within the capacity has to compare before it appends, and whether
it does is a question about the program; the lemmas here say what either call
does on both sides of the bound.

Padding and then assigning the padding is how a range is appended in place;
`overwrite_resize` and `overwrite_resize_of_empty` say that this composite is
`++`.

### What is load-bearing

The position of the first slot is not part of the model.  It can be seen in two
ways only, through raw pointers to the two halves and through iterators kept
across an insertion, and a user that does neither sees a list.
-/

universe u

/-- A circular buffer: `capacity` slots, of which the elements of `data` are in
use, oldest first.  The bound travels with the value, so that every operation
has to keep it. -/
structure CircularBuffer (α : Type u) where
  capacity : ℕ
  data : List α
  size_le_capacity : data.length ≤ capacity
  deriving DecidableEq, Repr

namespace CircularBuffer

variable {α : Type u}

/-- Two buffers are the same when capacity and contents are. -/
@[ext] theorem ext_data {b c : CircularBuffer α} (hcap : b.capacity = c.capacity)
    (hdata : b.data = c.data) : b = c := by
  cases b; cases c; cases hcap; cases hdata; rfl

/-- An empty buffer with `capacity` free slots. -/
def ofCapacity (capacity : ℕ) : CircularBuffer α := ⟨capacity, [], Nat.zero_le _⟩

/-- The number of elements in use. -/
def size (b : CircularBuffer α) : ℕ := b.data.length

/-- No element is in use. -/
def empty (b : CircularBuffer α) : Bool := b.data.isEmpty

/-- Append a range.  What does not fit pushes out the oldest elements, and a
range longer than the capacity leaves its own end. -/
def insertEnd (b : CircularBuffer α) (xs : List α) : CircularBuffer α where
  capacity := b.capacity
  data := (b.data ++ xs).drop ((b.data ++ xs).length - b.capacity)
  size_le_capacity := by simp only [List.length_drop]; omega

/-- Remove `n` elements from the front. -/
def eraseBegin (b : CircularBuffer α) (n : ℕ) : CircularBuffer α where
  capacity := b.capacity
  data := b.data.drop n
  size_le_capacity := by
    have := b.size_le_capacity
    simp only [List.length_drop]; omega

/-- Truncate to `n` elements, or pad with `fill` up to `n`; the capacity grows
when `n` exceeds it. -/
def resize (b : CircularBuffer α) (n : ℕ) (fill : α) : CircularBuffer α where
  capacity := max b.capacity n
  data := b.data.take n ++ List.replicate (n - b.data.length) fill
  size_le_capacity := by
    have := b.size_le_capacity
    simp only [List.length_append, List.length_take, List.length_replicate]; omega

/-- Assign `xs` to the elements from position `pos` on.  What would go past the
end is not assigned. -/
def overwrite (b : CircularBuffer α) (pos : ℕ) (xs : List α) : CircularBuffer α where
  capacity := b.capacity
  data := b.data.mapIdx fun i a => if pos ≤ i then (xs[i - pos]?).getD a else a
  size_le_capacity := by simpa using b.size_le_capacity

@[simp] theorem ofCapacity_data (n : ℕ) : (ofCapacity n : CircularBuffer α).data = [] := rfl

@[simp] theorem ofCapacity_capacity (n : ℕ) :
    (ofCapacity n : CircularBuffer α).capacity = n := rfl

@[simp] theorem ofCapacity_size (n : ℕ) : (ofCapacity n : CircularBuffer α).size = 0 := rfl

/-- The size is the length of the contents. -/
theorem size_eq (b : CircularBuffer α) : b.size = b.data.length := rfl

/-- A buffer never holds more than it has room for. -/
theorem size_le (b : CircularBuffer α) : b.size ≤ b.capacity := b.size_le_capacity

/-- A buffer is empty when its contents are. -/
@[simp] theorem empty_iff (b : CircularBuffer α) : b.empty = true ↔ b.data = [] := by
  simp [empty]

/-- Appending this way never changes the number of slots. -/
@[simp] theorem insertEnd_capacity (b : CircularBuffer α) (xs : List α) :
    (b.insertEnd xs).capacity = b.capacity := rfl

/-- A range that fits is appended and nothing is lost. -/
theorem insertEnd_data (b : CircularBuffer α) {xs : List α}
    (hfit : b.size + xs.length ≤ b.capacity) : (b.insertEnd xs).data = b.data ++ xs := by
  have hzero : (b.data ++ xs).length - b.capacity = 0 := by
    rw [size_eq] at hfit
    simp only [List.length_append]; omega
  simp only [insertEnd, hzero, List.drop_zero]

@[simp] theorem eraseBegin_capacity (b : CircularBuffer α) (n : ℕ) :
    (b.eraseBegin n).capacity = b.capacity := rfl

@[simp] theorem eraseBegin_data (b : CircularBuffer α) (n : ℕ) :
    (b.eraseBegin n).data = b.data.drop n := rfl

@[simp] theorem eraseBegin_size (b : CircularBuffer α) (n : ℕ) :
    (b.eraseBegin n).size = b.size - n := by simp [size]

/-- Erasing from the front changes the buffer unless there is nothing to
erase. -/
theorem eraseBegin_min_eq_self_iff (b : CircularBuffer α) (n : ℕ) :
    b.eraseBegin (min b.size n) = b ↔ n = 0 ∨ b.size = 0 := by
  constructor
  · intro h
    have hsize := congrArg size h
    rw [eraseBegin_size] at hsize
    omega
  · intro h
    have hzero : min b.size n = 0 := by omega
    exact ext_data rfl (by rw [eraseBegin_data, hzero, List.drop_zero])

@[simp] theorem resize_capacity (b : CircularBuffer α) (n : ℕ) (fill : α) :
    (b.resize n fill).capacity = max b.capacity n := rfl

@[simp] theorem overwrite_capacity (b : CircularBuffer α) (pos : ℕ) (xs : List α) :
    (b.overwrite pos xs).capacity = b.capacity := rfl

/-- **Appending in place.**  Growing by the length of a range and assigning the
range to the new elements appends it. -/
theorem overwrite_resize (b : CircularBuffer α) (xs : List α) (fill : α) :
    ((b.resize (b.size + xs.length) fill).overwrite b.size xs).data = b.data ++ xs := by
  have hsize : b.size = b.data.length := rfl
  simp only [overwrite, resize]
  refine List.ext_getElem ?_ fun i h₁ h₂ => ?_
  · simp only [List.length_mapIdx, List.length_append, List.length_take,
      List.length_replicate]
    omega
  · rw [List.getElem_mapIdx]
    by_cases hi : i < b.size
    · have htake : i < (b.data.take (b.size + xs.length)).length := by
        rw [List.length_take]; omega
      rw [if_neg (by omega), List.getElem_append_left htake,
        List.getElem_append_left (hsize ▸ hi), List.getElem_take]
    · have hx : i - b.size < xs.length := by
        simp only [List.length_append] at h₂; omega
      rw [if_pos (by omega), List.getElem?_eq_getElem hx, Option.getD_some,
        List.getElem_append_right (by omega)]
      rfl

/-- The same for a buffer known to be empty, where the position is the front. -/
theorem overwrite_resize_of_empty {b : CircularBuffer α} (hempty : b.data = [])
    (xs : List α) (fill : α) : ((b.resize xs.length fill).overwrite 0 xs).data = xs := by
  have h := overwrite_resize b xs fill
  simpa [size_eq, hempty] using h

end CircularBuffer
