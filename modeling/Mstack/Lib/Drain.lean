import Mstack.Lib.Simulation

/-!
# Systems that come to rest

Some events of a system only work off what is there: a queued element moves on,
a posted handler runs.  `Drains` says that such an event, where it is *ready*,
succeeds and makes a measure smaller.  Then the system comes to rest, whatever
the order in which ready events are handled:

* `Drains.run` — no schedule of ready events aborts, and none is longer than
  the measure;
* `Drains.rests` — every schedule of ready events can be continued until
  nothing is ready.

### How liveness is stated

"Eventually" needs a scheduler, and a scheduler needs an assumption of
fairness.  None is made here.  Instead the statement is about *all* schedules
of ready events: every one of them is finite, with a bound read off the state
it starts in, and none can get stuck before the system is at rest.  What holds
at rest then holds at the end of every schedule that is not cut short, and a
fair scheduler is just one that does not cut it short.

### What is load-bearing

Readiness is part of the admissibility (`Admitted step ready`), so that a
schedule never contains an event that has nothing to do; such an event would
leave the measure alone, and no bound could hold.  The measure is the user's to
find: it has to count what an event may add as well as what it takes away, so a
handler that posts further handlers must be worth more than what it posts.
-/

namespace EventSystem

universe u v w

variable {σ : Type u} {ε : Type v} {φ : Type w}
variable {step : σ → ε → Except φ σ} {ready : σ → ε → Prop} {P : σ → Prop} {μ : σ → ℕ}

variable (step ready P μ) in
/-- **Ready events work something off.**  Under the invariant `P`, handling one
succeeds, keeps the invariant and makes the measure `μ` smaller.  Events that
are not ready are not spoken of. -/
def Drains : Prop := ∀ s e, P s → ready s e → ∃ s', step s e = .ok s' ∧ P s' ∧ μ s' < μ s

variable (ready) in
/-- No event is ready: there is nothing left to work off. -/
def AtRest (s : σ) : Prop := ∀ e, ¬ ready s e

/-- **Every schedule is short.**  A schedule of ready events does not abort,
keeps the invariant, and each of its events has taken at least one off the
measure. -/
theorem Drains.run (h : Drains step ready P μ) {s : σ} {es : List ε} (hP : P s)
    (hes : Admitted step ready s es) :
    ∃ s', EventSystem.run step s es = .ok s' ∧ P s' ∧ es.length + μ s' ≤ μ s := by
  induction es generalizing s with
  | nil => exact ⟨s, rfl, hP, (Nat.zero_add _).le⟩
  | cons e es ih =>
      obtain ⟨t, ht, hPt, hless⟩ := h s e hP hes.1
      obtain ⟨s', hs', hP', hlength⟩ := ih hPt (hes.2 t ht)
      refine ⟨s', by rw [run_cons, ht]; exact hs', hP', ?_⟩
      rw [List.length_cons]
      omega

/-- There is a schedule that ends at rest.  The induction is on a bound for the
measure: a state that is not at rest has a ready event, and handling it makes
the measure smaller. -/
theorem Drains.exists_atRest (h : Drains step ready P μ) (n : ℕ) {s : σ} (hP : P s)
    (hn : μ s ≤ n) :
    ∃ es s', Admitted step ready s es ∧ EventSystem.run step s es = .ok s' ∧ P s' ∧
      AtRest ready s' := by
  induction n generalizing s with
  | zero =>
      refine ⟨[], s, trivial, rfl, hP, fun e he => ?_⟩
      obtain ⟨t, -, -, hless⟩ := h s e hP he
      omega
  | succ n ih =>
      by_cases hrest : AtRest ready s
      · exact ⟨[], s, trivial, rfl, hP, hrest⟩
      · obtain ⟨e, he⟩ := not_forall_not.mp hrest
        obtain ⟨t, ht, hPt, hless⟩ := h s e hP he
        obtain ⟨es, s', hes, hs', hP', hrest'⟩ := ih hPt (by omega)
        exact ⟨e :: es, s', .cons he ht hes, by rw [run_cons, ht]; exact hs', hP', hrest'⟩

/-- **Every schedule can be continued until nothing is ready**, and is still no
longer than the measure. -/
theorem Drains.rests (h : Drains step ready P μ) {s : σ} {es : List ε} (hP : P s)
    (hes : Admitted step ready s es) :
    ∃ fs s', Admitted step ready s (es ++ fs) ∧ EventSystem.run step s (es ++ fs) = .ok s' ∧
      P s' ∧ AtRest ready s' ∧ (es ++ fs).length ≤ μ s := by
  obtain ⟨t, ht, hPt, -⟩ := h.run hP hes
  obtain ⟨fs, s', hfs, hs', hP', hrest⟩ := h.exists_atRest (μ t) hPt le_rfl
  have hall := hes.append ht hfs
  obtain ⟨s'', hs'', -, hlength⟩ := h.run hP hall
  have hrun : EventSystem.run step s (es ++ fs) = .ok s' := by
    rw [run_append, ht]
    exact hs'
  exact ⟨fs, s', hall, hrun, hP', hrest, by omega⟩

end EventSystem
