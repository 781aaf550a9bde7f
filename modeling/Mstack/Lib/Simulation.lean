import Mstack.Lib.EventSystem

/-!
# Forward simulation

Two event systems, a lower one that is close to the program and an upper one
that says what it is for.  `Simulates` relates them: every admissible event of
the lower system succeeds, and the upper system answers it with admissible
events of its own.  A lower event that is invisible one level up is answered
with none.

* `Simulates.run` — what holds for one event holds for a run.  The upper run
  consists of admissible events too, so that every theorem about admissible
  upper runs applies to it.
* `Answers.stutter`, `Answers.single` — the two answers of which a simulation
  is made.

### What it is good for

A lower event may be a handler deep inside the program that moves a buffer from
one queue to the next.  One level up nothing has happened, and the answer is
the empty list.  Another lower event hands the buffer to the receiver; one
level up this is one delivery.  So the upper system can forget queues, buffers
and layers, and what is proved of it still holds of the program, as long as the
relation `R` says how to read the upper state off the lower one.

### What is load-bearing

The simulation is *total*: an admissible lower event succeeds.  A partial one,
which only speaks of lower events that happen to succeed, would be satisfied by
a program that aborts at once.  And the answers have to be *admissible* one
level up: otherwise the upper run might leave the range of the theorems that
are to be used on it.
-/

namespace EventSystem

universe u v w x y z

variable {σ : Type u} {ε : Type v} {φ : Type w} {τ : Type x} {δ : Type y} {ψ : Type z}
variable {step : σ → ε → Except φ σ} {ok : σ → ε → Prop}
variable {step' : τ → δ → Except ψ τ} {ok' : τ → δ → Prop}

/-- Two admissible runs, the second from where the first one ends. -/
theorem Admitted.append {s s' : σ} {es fs : List ε} (h : Admitted step ok s es)
    (hrun : run step s es = .ok s') (h' : Admitted step ok s' fs) :
    Admitted step ok s (es ++ fs) := by
  induction es generalizing s with
  | nil => cases hrun; exact h'
  | cons e es ih =>
      obtain ⟨t, ht, hrest⟩ := bind_eq_ok.mp hrun
      exact .cons h.1 ht (ih (h.2 t ht) hrest)

variable (step' ok') in
/-- What the upper system does while the lower one handles an event: admissible
events, none of which aborts, from `a` to `a'`. -/
def Answers (a : τ) (fs : List δ) (a' : τ) : Prop :=
  Admitted step' ok' a fs ∧ run step' a fs = .ok a'

/-- The upper system does nothing. -/
theorem Answers.stutter (a : τ) : Answers step' ok' a [] a := ⟨trivial, rfl⟩

/-- The upper system handles one event. -/
theorem Answers.single {a a' : τ} {f : δ} (hok : ok' a f) (hstep : step' a f = .ok a') :
    Answers step' ok' a [f] a' := by
  refine ⟨.single hok, ?_⟩
  rw [run_cons, hstep]
  rfl

/-- Answers to two events, one behind the other, answer both. -/
theorem Answers.append {a b c : τ} {fs gs : List δ} (h : Answers step' ok' a fs b)
    (h' : Answers step' ok' b gs c) : Answers step' ok' a (fs ++ gs) c := by
  refine ⟨h.1.append h.2 h'.1, ?_⟩
  rw [run_append, h.2]
  exact h'.2

variable (step ok step' ok') in
/-- **Forward simulation.**  Where the relation `R` holds, an admissible lower
event succeeds and is answered one level up, and `R` holds again. -/
def Simulates (R : σ → τ → Prop) : Prop :=
  ∀ s a e, R s a → ok s e → ∃ s' fs a', step s e = .ok s' ∧ Answers step' ok' a fs a' ∧ R s' a'

/-- **Every run is simulated.**  No run of admissible lower events aborts, and
there is a run of admissible upper events, none of which aborts either, that
ends in a related state. -/
theorem Simulates.run {R : σ → τ → Prop} (h : Simulates step ok step' ok' R) {s : σ} {a : τ}
    {es : List ε} (hR : R s a) (hadm : Admitted step ok s es) :
    ∃ s' fs a', EventSystem.run step s es = .ok s' ∧ Answers step' ok' a fs a' ∧ R s' a' := by
  induction es generalizing s a with
  | nil => exact ⟨s, [], a, rfl, .stutter a, hR⟩
  | cons e es ih =>
      obtain ⟨t, fs, b, ht, hfs, hRt⟩ := h s a e hR hadm.1
      obtain ⟨s', gs, a', hs', hgs, hR'⟩ := ih hRt (hadm.2 t ht)
      exact ⟨s', fs ++ gs, a', by rw [run_cons, ht]; exact hs', hfs.append hgs, hR'⟩

end EventSystem
