import Mathlib

/-!
# Stages of a lossless pipeline

A stage takes elements out of a FIFO queue, works on each, and passes the
results on.  `Conserves f due outs queue` is its conservation law: what is
`due` to leave the stage is what has left it, followed by what is still in its
queue.  The work `f` may fail; `due` records what is to become of an element,
and so is a list of `Option`s.

* `push` and `pop` are the two steps of a stage.
* `comp` is the point: two stages in a row, the first one filling the queue of
  the second, are one stage, whose queue is the second queue followed by the
  first.
* `drained` is what is left of the law once the queue is empty: everything has
  come out, in order.

A pipeline of any number of layers is then one equation, and the proof that a
step keeps it is a `push` at one end, a `pop` at the other, and for a step in
the middle both at once, which cancel.

The law is an equation between lists, so that loss, duplication, reordering and
a change of an element on its way all contradict it; a law about lengths or
multisets would let some of them pass.
-/

namespace FifoStage

variable {α β γ δ : Type*}

/-- What is due to leave the stage has left it or is in its queue, oldest
first. -/
def Conserves (f : α → Option β) (due : List (Option β)) (outs : List β) (queue : List α) : Prop :=
  due = outs.map some ++ queue.map f

namespace Conserves

variable {f : α → Option β} {due : List (Option β)} {outs : List β} {queue : List α}

theorem empty (f : α → Option β) : Conserves f [] [] [] := rfl

/-- An element comes: it is due from now on, and stands last in the queue. -/
theorem push (h : Conserves f due outs queue) (a : α) :
    Conserves f (due ++ [f a]) outs (queue ++ [a]) := by
  rw [Conserves, h, List.map_append, List.append_assoc]
  rfl

/-- The oldest element leaves as what the work makes of it.  The work has to
succeed on it; what has left is never `none`. -/
theorem pop {a : α} {b : β} (h : Conserves f due outs (a :: queue)) (hab : f a = some b) :
    Conserves f due (outs ++ [b]) queue := by
  rw [Conserves, h, List.map_append, List.map_cons, hab, List.append_assoc]
  rfl

/-- The work may change on elements that are not queued.  A stage whose work
depends on a state, a table for instance, is served by this lemma when the
state changes. -/
theorem congr {f' : α → Option β} (h : Conserves f due outs queue)
    (hf : ∀ a ∈ queue, f' a = f a) : Conserves f' due outs queue := by
  rw [Conserves, List.map_congr_left hf]
  exact h

/-- Nothing is lost and nothing is added, if only the number is of interest. -/
theorem length_eq (h : Conserves f due outs queue) :
    due.length = outs.length + queue.length := by
  rw [h, List.length_append, List.length_map, List.length_map]

/-- A queued element is due. -/
theorem mem_due (h : Conserves f due outs queue) {a : α} (ha : a ∈ queue) : f a ∈ due := by
  rw [h]
  exact List.mem_append_right _ (List.mem_map_of_mem ha)

/-- Once the queue is empty, everything has left, in the order in which it
came. -/
theorem drained (h : Conserves f due outs []) : due = outs.map some := by
  rw [h, List.map_nil, List.append_nil]

/-- **Two stages in a row are one.**  The middle list is what the first stage
has passed on and the second has taken; it drops out, and the queue of the
whole is the second queue, followed by the first with the rest of the work
still to be done on it. -/
theorem comp {mids : List β} {q : List α} {g : γ → Option δ} {k : β → Option δ} {ends : List δ}
    {q' : List γ} (hf : Conserves f due mids q) (hg : Conserves g (mids.map k) ends q') :
    Conserves id (due.map (·.bind k)) ends (q'.map g ++ q.map fun a => (f a).bind k) := by
  have hmids : (mids.map some).map (·.bind k) = mids.map k := by
    rw [List.map_map]
    rfl
  rw [Conserves, hf, List.map_append, hmids, hg, List.map_map, List.map_id, List.append_assoc]
  rfl

end Conserves

end FifoStage
