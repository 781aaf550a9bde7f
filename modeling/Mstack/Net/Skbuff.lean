import Mstack.Lib.EventSystem
import Mstack.Tcp.Segment

/-!
# Packet buffers

`skbuff.hpp`.  The source keeps one allocation and four pointers into it,
ordered `start_ ≤ head_ ≤ tail_ ≤ end_`.  Here a buffer *is* the three regions
these pointers cut out, so that the order cannot be violated:

* `front` — from `start_` to `head_`; its length is `headroom()`;
* `payload` — from `head_` to `tail_`;
* `back` — from `tail_` to `end_`; its length is `tailroom()`.

Moving `head_` moves bytes between `front` and `payload` and changes none of
them: what a layer has read stays in front of the head, and what the allocator
left there is written over by the layer below.  Headers are popped on the way
up and pushed on the way down, and no byte is ever copied.

### Faults

`NetFault` lists the ways in which the layers below TCP can stop a debug build:
one for each family of `assert`s, and `outOfBounds` for an access outside the
allocation, which no `assert` catches.  The ones of `tcb_t` are in `Tcp.Tcb`.

### What is load-bearing

`popFront` takes an **integer**.  The source's argument is a `size_t`, and one
that has wrapped around moves the head backwards: the `assert` compares
pointers, `head_ > tail_`, and lets that pass.  That is how a short data offset
gets through (`Net.Extent`).

A buffer that was **moved from** keeps its pointers.
`skbuff(skbuff&&) = default` moves the `unique_ptr` and copies the rest, so
that `payload()` has the size it had, over bytes that belong to another buffer
and are freed with it.  `movedFrom` and `dangling` are these two states;
`freed` is what a read of freed memory happens to yield, and nothing is ever
assumed of it.
-/

namespace Mstack

/-- The ways the layers below TCP can stop a debug build.  As in `Tcp.Segment`:
failed assertions, and accesses the language leaves undefined. -/
inductive NetFault where
  /-- The `assert`s on `headroom()` and in `push_front`. -/
  | headroom
  /-- The `assert` in `pop_front`. -/
  | headPastTail
  /-- An `assert` on `payload().size()`. -/
  | shortPayload
  /-- An access outside the buffer. -/
  | outOfBounds
  /-- The alignment `assert` in `sum_every_16bits`. -/
  | misaligned
  /-- `assert(src_mac_opt)` in `ipv4::process`. -/
  | noSourceMac
  /-- `assert(in_frame.dev)` in `ethernetv2::process`. -/
  | noDevice
  /-- `front()` of an empty queue. -/
  | emptyQueue
  deriving DecidableEq, Repr

/-- `skbuff`. -/
@[ext] structure Skbuff where
  front : List Byte
  payload : List Byte
  back : List Byte
  deriving DecidableEq, Repr

namespace Skbuff

/-- `headroom()`: the distance from `start_` to `head_`. -/
def headroom (skb : Skbuff) : ℕ := skb.front.length

/-- `skbuff{std::make_unique_for_overwrite<std::byte[]>(len), len,
headOff}`. The bytes are indeterminate: `junk` says what they happen to be. -/
def alloc (junk : ℕ → Byte) (len headOff : ℕ) : Skbuff where
  front := (List.range headOff).map junk
  payload := (List.range' headOff (len - headOff)).map junk
  back := []

/-- What `skbuff(skbuff&&) = default` leaves behind.  It takes `data_` away and
copies the size and the pointers, so that the buffer moved from still shows the
same regions; but the bytes are now another buffer's, and are gone when that
one is. -/
def movedFrom (skb : Skbuff) : Skbuff := skb

/-- A buffer that was moved from, once the buffer it was moved to has been
destroyed: its pointers dangle.  The sizes are what they were, since they are
differences of the pointers; `freed` is what a read of the memory that has been
given back happens to yield. -/
def dangling (freed : ℕ → Byte) (skb : Skbuff) : Skbuff where
  front := (List.range skb.front.length).map freed
  payload := (List.range' skb.front.length skb.payload.length).map freed
  back := (List.range' (skb.front.length + skb.payload.length) skb.back.length).map freed

/-- `head_ = start_ + h`: the bytes before the new position are the front,
those behind it the payload. -/
def setHead (skb : Skbuff) (h : ℕ) : Skbuff where
  front := (skb.front ++ skb.payload).take h
  payload := (skb.front ++ skb.payload).drop h
  back := skb.back

/-- `push_front(n)`.  The head moves towards the start, and its `assert` is
that it does not move past it. -/
def pushFront (skb : Skbuff) (n : ℕ) : Except NetFault Skbuff :=
  if n ≤ skb.headroom then .ok (skb.setHead (skb.headroom - n)) else .error .headroom

/-- `pop_front(n)`.  The argument is an integer: adding a `size_t` that has
wrapped moves the head backwards, and the `assert` lets that pass. -/
def popFront (skb : Skbuff) (n : ℤ) : Except NetFault Skbuff :=
  let h := (skb.headroom : ℤ) + n
  if skb.headroom + skb.payload.length < h then .error .headPastTail
  else if h < 0 then .error .outOfBounds
  else .ok (skb.setHead h.toNat)

/-- `std::memcpy(head() + off, bs, bs.size())`.  A copy that would leave the
payload is a fault. -/
def write (skb : Skbuff) (off : ℕ) (bs : List Byte) : Except NetFault Skbuff :=
  if off + bs.length ≤ skb.payload.length then
    .ok { skb with
      payload := skb.payload.take off ++ bs ++ skb.payload.drop (off + bs.length) }
  else .error .outOfBounds

/-! ## What the operations do to the regions

Each lemma is about a buffer whose regions are written out, cut where the
pointer is going to stand. -/

/-- A new buffer is filled behind its head. -/
theorem length_payload_alloc (junk : ℕ → Byte) (len headOff : ℕ) :
    (alloc junk len headOff).payload.length = len - headOff := by
  simp [alloc]

/-- A dangling buffer has the sizes that it had. -/
theorem length_payload_dangling (freed : ℕ → Byte) (skb : Skbuff) :
    (dangling freed skb).payload.length = skb.payload.length := by
  simp [dangling]

/-- A buffer dangles once: moving it on and destroying what it was moved to
changes nothing. -/
@[simp] theorem dangling_dangling (freed : ℕ → Byte) (skb : Skbuff) :
    (dangling freed skb).dangling freed = dangling freed skb := by
  simp [dangling]

/-- A new buffer has the room it was asked for, in front of its head. -/
@[simp] theorem headroom_alloc (junk : ℕ → Byte) (len headOff : ℕ) :
    (alloc junk len headOff).headroom = headOff := by
  simp [alloc, headroom]

/-- The head moves back over `mid`. -/
theorem pushFront_mk {mid : List Byte} {n : ℕ} (hn : mid.length = n)
    (front payload back : List Byte) :
    pushFront ⟨front ++ mid, payload, back⟩ n = .ok ⟨front, mid ++ payload, back⟩ := by
  subst hn
  simp [pushFront, headroom, setHead]

/-- The head moves forward over `mid`. -/
theorem popFront_mk {mid : List Byte} {n : ℤ} (hn : mid.length = n)
    (front payload back : List Byte) :
    popFront ⟨front, mid ++ payload, back⟩ n = .ok ⟨front ++ mid, payload, back⟩ := by
  subst hn
  have hpast : ¬ ((front.length : ℤ) + (mid ++ payload).length < front.length + mid.length) := by
    rw [List.length_append]
    omega
  have hpos : ¬ ((front.length : ℤ) + mid.length < 0) := by omega
  have hnat : ((front.length : ℤ) + mid.length).toNat = (front ++ mid).length := by
    rw [List.length_append]
    omega
  simp only [popFront, headroom, if_neg hpast, if_neg hpos, setHead, hnat, ← List.append_assoc,
    List.take_left, List.drop_left]

/-- The head moves forward over part of the payload. -/
theorem popFront_of_le {skb : Skbuff} {n : ℕ} (h : n ≤ skb.payload.length) :
    skb.popFront n = .ok ⟨skb.front ++ skb.payload.take n, skb.payload.drop n, skb.back⟩ := by
  have hlen : ((skb.payload.take n).length : ℤ) = n := by
    rw [List.length_take]
    omega
  have hpop := popFront_mk hlen skb.front (skb.payload.drop n) skb.back
  rwa [List.take_append_drop] at hpop

/-- Writing over `old`. -/
theorem write_mk {pre old bs : List Byte} {off : ℕ} (hoff : pre.length = off)
    (h : old.length = bs.length) (front post back : List Byte) :
    write ⟨front, pre ++ (old ++ post), back⟩ off bs
      = .ok ⟨front, pre ++ (bs ++ post), back⟩ := by
  subst hoff
  have hroom : pre.length + bs.length ≤ (pre ++ (old ++ post)).length := by
    simp only [List.length_append]
    omega
  rw [write, if_pos hroom, List.take_left, ← h, ← List.append_assoc pre old post,
    ← List.length_append, List.drop_left]
  simp only [List.append_assoc]

/-- Writing at the head. -/
theorem write_zero {old bs : List Byte} (h : old.length = bs.length)
    (front post back : List Byte) :
    write ⟨front, old ++ post, back⟩ 0 bs = .ok ⟨front, bs ++ post, back⟩ := by
  have hnil : ([] : List Byte).length = 0 := rfl
  exact write_mk hnil h front post back

end Skbuff

end Mstack
