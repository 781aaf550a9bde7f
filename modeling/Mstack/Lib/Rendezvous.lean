import Mathlib

/-!
# Matching two streams first-in, first-out

Items and waiters arrive in any order, and each item goes to one waiter.  The
code keeps two queues: the items nobody has asked for yet, and the waiters
nothing has arrived for.

`Matched items waiters pairs ready waiting` says what such code has to keep
true after `items` and `waiters` have arrived, in these orders: each stream is
the pairs made so far followed by its queue, and one of the two queues is
empty.  The four rules below are the four things an arrival can do;
`Matched.pairs_eq` is what they amount to: the `k`-th waiter has been given the
`k`-th item.

A `Desk` is code that keeps the waiters only: an item nobody waits for is
gone.  It matches first-in, first-out as long as every item finds a waiter, and
not any more after that.

### Two uses of one law

Where both queues exist, the law holds whatever the order of arrivals, and
`pairs_eq`, `ready_eq` and `waiting_eq` describe the state completely in terms
of the two streams.  Where only the waiters are kept, the law is `Lossless`,
which is `Matched` with no item left over, and it ends with the first item that
finds nobody: `Lossy` says that an item has been lost, and it is kept for ever,
so that a run is lossless if and only if every one of its steps is
(`run_dichotomy` of `Lib.EventSystem` does the rest).

### What is load-bearing

`exclusive`.  Without it the two equations only say that both streams were
handled in order, and an item could lie in its queue while a waiter stands in
the other.
-/

namespace Rendezvous

universe u v w

variable {α : Type u} {β : Type v}

/-- The pairs made and the queues kept are those of first-in, first-out
matching.  The two equations say that nothing is lost, doubled or overtaken on
either side; `exclusive` says that nobody waits in front of an item that is
there. -/
structure Matched (items : List α) (waiters : List β) (pairs : List (β × α))
    (ready : List α) (waiting : List β) : Prop where
  items_eq : items = pairs.map Prod.snd ++ ready
  waiters_eq : waiters = pairs.map Prod.fst ++ waiting
  exclusive : ready = [] ∨ waiting = []

/-- A queue of items, before anybody waits. -/
theorem matched_start (items : List α) : Matched items ([] : List β) [] items [] where
  items_eq := rfl
  waiters_eq := rfl
  exclusive := .inr rfl

namespace Matched

variable {items ready : List α} {waiters waiting : List β} {pairs : List (β × α)}

/-- An item arrives and somebody waits. -/
theorem item_taken {b : β} (h : Matched items waiters pairs [] (b :: waiting)) (a : α) :
    Matched (items ++ [a]) waiters (pairs ++ [(b, a)]) [] waiting where
  items_eq := by simp [h.items_eq]
  waiters_eq := by simp [h.waiters_eq]
  exclusive := .inl rfl

/-- An item arrives and nobody waits. -/
theorem item_kept (h : Matched items waiters pairs ready []) (a : α) :
    Matched (items ++ [a]) waiters pairs (ready ++ [a]) [] where
  items_eq := by simp [h.items_eq]
  waiters_eq := h.waiters_eq
  exclusive := .inr rfl

/-- Somebody waits and an item is ready. -/
theorem wait_served {a : α} (h : Matched items waiters pairs (a :: ready) []) (b : β) :
    Matched items (waiters ++ [b]) (pairs ++ [(b, a)]) ready [] where
  items_eq := by simp [h.items_eq]
  waiters_eq := by simp [h.waiters_eq]
  exclusive := .inr rfl

/-- Somebody waits and no item is ready. -/
theorem wait_kept (h : Matched items waiters pairs [] waiting) (b : β) :
    Matched items (waiters ++ [b]) pairs [] (waiting ++ [b]) where
  items_eq := h.items_eq
  waiters_eq := by simp [h.waiters_eq]
  exclusive := .inl rfl

theorem zip_fst_snd (pairs : List (β × α)) :
    (pairs.map Prod.fst).zip (pairs.map Prod.snd) = pairs := by
  induction pairs with
  | nil => rfl
  | cons p pairs ih => rw [List.map_cons, List.map_cons, List.zip_cons_cons, ih]

/-- **First in, first out**: the `k`-th waiter gets the `k`-th item. -/
theorem pairs_eq (h : Matched items waiters pairs ready waiting) :
    pairs = waiters.zip items := by
  have hlen : (pairs.map Prod.fst).length = (pairs.map Prod.snd).length := by simp
  rw [h.items_eq, h.waiters_eq, List.zip_append hlen, zip_fst_snd]
  rcases h.exclusive with hnil | hnil <;> simp [hnil]

/-- The items left over are those behind the last one a waiter has asked for. -/
theorem ready_eq (h : Matched items waiters pairs ready waiting) :
    ready = items.drop waiters.length := by
  rcases h.exclusive with hnil | hnil
  · rw [h.items_eq, h.waiters_eq, hnil, List.append_nil, List.drop_of_length_le]
    simp
  · rw [h.items_eq, h.waiters_eq, hnil, List.append_nil, List.drop_left' (by simp)]

/-- The waiters left over are those behind the last one that was served. -/
theorem waiting_eq (h : Matched items waiters pairs ready waiting) :
    waiting = waiters.drop items.length := by
  rcases h.exclusive with hnil | hnil
  · rw [h.items_eq, h.waiters_eq, hnil, List.append_nil, List.drop_left' (by simp)]
  · rw [h.items_eq, h.waiters_eq, hnil, List.append_nil, List.drop_of_length_le]
    simp

end Matched

/-! ## Waiters without a queue of items -/

/-- The waiters of a one-sided rendezvous, and the history of what has arrived
and of what has been paired. -/
structure Desk (α : Type u) (β : Type v) where
  waiting : List β
  items : List α
  waiters : List β
  pairs : List (β × α)
  deriving DecidableEq, Repr

namespace Desk

/-- Nobody has come yet. -/
def empty : Desk α β where
  waiting := []
  items := []
  waiters := []
  pairs := []

/-- Somebody waits. -/
def wait (d : Desk α β) (b : β) : Desk α β :=
  { d with waiting := d.waiting ++ [b], waiters := d.waiters ++ [b] }

/-- An item arrives: it goes to the first waiter, or nowhere.  Where it goes
nowhere it is still recorded among the items that have arrived, so that the
loss can be seen. -/
def item (d : Desk α β) (a : α) : Desk α β :=
  match d.waiting with
  | [] => { d with items := d.items ++ [a] }
  | b :: rest => { d with
      waiting := rest
      items := d.items ++ [a]
      pairs := d.pairs ++ [(b, a)] }

/-- Every item has been given to a waiter, first-in, first-out. -/
def Lossless (d : Desk α β) : Prop := Matched d.items d.waiters d.pairs [] d.waiting

/-- Some item has not been given to anybody. -/
def Lossy (d : Desk α β) : Prop := d.pairs.length < d.items.length

variable {d : Desk α β}

theorem lossless_empty : (empty : Desk α β).Lossless := matched_start []

/-- Who waits brings no item. -/
@[simp] theorem items_wait (d : Desk α β) (b : β) : (d.wait b).items = d.items := rfl

@[simp] theorem items_item (d : Desk α β) (a : α) : (d.item a).items = d.items ++ [a] := by
  unfold item
  split <;> rfl

/-- The two conditions exclude each other. -/
theorem Lossless.not_lossy (h : d.Lossless) : ¬ d.Lossy := by
  have hlen := congrArg List.length h.items_eq
  rw [List.append_nil, List.length_map] at hlen
  exact not_lt_of_ge (le_of_eq hlen)

theorem Lossless.wait (h : d.Lossless) (b : β) : (d.wait b).Lossless := h.wait_kept b

/-- An item that finds somebody waiting is matched. -/
theorem Lossless.item (h : d.Lossless) (hne : d.waiting ≠ []) (a : α) : (d.item a).Lossless := by
  obtain ⟨b, rest, hcons⟩ := List.exists_cons_of_ne_nil hne
  unfold Lossless at h
  rw [hcons] at h
  simp only [Desk.item, hcons]
  exact h.item_taken a

/-- Where nobody waits, the item is lost. -/
theorem Lossless.lossy_item (h : d.Lossless) (hnone : d.waiting = []) (a : α) :
    (d.item a).Lossy := by
  have hlen := congrArg List.length h.items_eq
  simp only [List.append_nil, List.length_map] at hlen
  simp only [Lossy, Desk.item, hnone, List.length_append, List.length_singleton]
  omega

/-- What is lost stays lost. -/
theorem Lossy.wait (h : d.Lossy) (b : β) : (d.wait b).Lossy := h

/-- Nor does a later item make up for it. -/
theorem Lossy.item (h : d.Lossy) (a : α) : (d.item a).Lossy := by
  unfold Lossy at h ⊢
  unfold Desk.item
  split <;> simp only [List.length_append, List.length_singleton] <;> omega

/-- One desk of several changes: what holds of this one and of the others holds
of each. -/
theorem update_desk {ι : Type w} [DecidableEq ι] {Q : Desk α β → Prop} {desks : ι → Desk α β}
    {i j : ι} (hsame : j = i → Q d) (hother : j ≠ i → Q (desks i)) :
    Q (Function.update desks j d i) := by
  by_cases h : j = i
  · rw [h, Function.update_self]
    exact hsame h
  · rw [Function.update_of_ne (Ne.symm h)]
    exact hother h

end Desk

end Rendezvous
