import Mathlib

/-!
# Tables and their latest update

A table maps keys to values; an operation updates a key or resets it.  The law
of a table is that a key holds what its latest operation left there:

* `latest t ops` — that value, read off the list of operations.
* `keep` — a table whose update leaves an entry alone that exists, as the
  `insert` of a map does.
* `keep_latest_iff` — along a list of events, such a table obeys the law if and
  only if every update is `Fresh`: it meets no entry, or one with the value it
  brings.

An event may be something other than an operation on the table; `view` says
which operation it is, if it is one.

The law is asked of every prefix of the run, not only of its end.  At the end
alone it could hold by accident, since a later reset hides an update that was
lost; and then there would be no exact condition on the single updates.
-/

namespace LatestTable

universe u v w

variable {κ : Type u} {ν : Type v} {ε : Type w} [DecidableEq κ]

/-- An operation on a table. -/
inductive Op (κ : Type u) (ν : Type v) where
  | reset (key : κ)
  | update (key : κ) (value : ν)
  deriving DecidableEq, Repr

namespace Op

/-- The key an operation is about. -/
def key : Op κ ν → κ
  | .reset k => k
  | .update k _ => k

/-- What an operation is to leave at its key. -/
def value? : Op κ ν → Option ν
  | .reset _ => none
  | .update _ value => some value

end Op

/-- What a table that was `t` is to hold at `k` after `ops`: what the last
operation on `k` has left there, and what was there before if there is none. -/
def latest (t : κ → Option ν) (ops : List (Op κ ν)) (k : κ) : Option ν :=
  match (ops.filter fun op => op.key = k).getLast? with
  | none => t k
  | some op => op.value?

/-- The operation of a table that keeps an entry that exists, as `insert` does;
`reset` removes it. -/
def keep (t : κ → Option ν) : Op κ ν → κ → Option ν
  | .reset k => Function.update t k none
  | .update k value =>
      match t k with
      | some _ => t
      | none => Function.update t k (some value)

/-- An update meets no entry, or one with the value it brings. -/
def Fresh (t : κ → Option ν) : Op κ ν → Prop
  | .reset _ => True
  | .update k value => ∀ old, t k = some old → old = value

@[simp] theorem latest_nil (t : κ → Option ν) : latest t [] = t := rfl

/-- **The law, one operation at a time**: the last operation decides. -/
theorem latest_concat (t : κ → Option ν) (ops : List (Op κ ν)) (op : Op κ ν) :
    latest t (ops ++ [op]) = Function.update (latest t ops) op.key op.value? := by
  funext k
  by_cases hk : k = op.key
  · subst hk
    simp [latest]
  · have hne : ¬ op.key = k := fun h => hk h.symm
    simp [latest, hne, Function.update_of_ne hk]

/-- Keeping an entry is what the law asks for exactly if the entry has the new
value. -/
theorem keep_eq_update_iff (t : κ → Option ν) (op : Op κ ν) :
    keep t op = Function.update t op.key op.value? ↔ Fresh t op := by
  cases op with
  | reset k => exact iff_of_true rfl trivial
  | update k value =>
      simp only [keep, Fresh, Op.key, Op.value?]
      cases hold : t k with
      | none => exact iff_of_true rfl nofun
      | some old =>
          dsimp only
          rw [eq_comm, Function.update_eq_self_iff, hold]
          constructor
          · intro h old' hold'
            exact (Option.some.inj (h.trans hold')).symm
          · intro h
            rw [h old rfl]

section Events

variable (view : ε → Option (Op κ ν))

/-- A table among the things an event can be about. -/
def keepEvent (t : κ → Option ν) (e : ε) : κ → Option ν :=
  match view e with
  | none => t
  | some op => keep t op

/-- Every update of a list of events is fresh when it is made, that is, in the
table as the events before it have left it. -/
def AllFresh (t : κ → Option ν) (es : List ε) : Prop :=
  ∀ past e rest op, es = past ++ e :: rest → view e = some op →
    Fresh (past.foldl (keepEvent view) t) op

/-- **A table that keeps its entries obeys the law exactly if every update is
fresh.**  One update that is not makes a difference at once, to the prefix that
ends with it. -/
theorem keep_latest_iff (t : κ → Option ν) (es : List ε) :
    (∀ past rest, es = past ++ rest →
      past.foldl (keepEvent view) t = latest t (past.filterMap view)) ↔ AllFresh view t es := by
  constructor
  · intro h past e rest op hes hop
    have hpast := h past (e :: rest) hes
    have hnext := h (past ++ [e]) rest (by rw [hes, List.append_assoc]; rfl)
    rw [List.foldl_concat, List.filterMap_append, List.filterMap_cons_some hop, List.filterMap_nil,
      latest_concat, ← hpast, keepEvent, hop] at hnext
    exact (keep_eq_update_iff _ op).mp hnext
  · intro h past
    -- The law is kept from one prefix to the next.
    induction past using List.reverseRecOn with
    | nil => exact fun _ _ => rfl
    | append_singleton past e ih =>
        intro rest hes
        have hes' : es = past ++ e :: rest := by rw [hes, List.append_assoc]; rfl
        rw [List.foldl_concat, List.filterMap_append, keepEvent]
        cases hop : view e with
        | none =>
            rw [List.filterMap_cons_none hop, List.filterMap_nil, List.append_nil]
            exact ih (e :: rest) hes'
        | some op =>
            rw [List.filterMap_cons_some hop, List.filterMap_nil, latest_concat,
              ← ih (e :: rest) hes']
            exact (keep_eq_update_iff _ op).mpr (h past e rest op hes' hop)

end Events

end LatestTable
