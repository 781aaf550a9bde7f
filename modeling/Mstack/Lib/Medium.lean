import Mstack.Lib.EventSystem

/-!
# Stations on a shared medium

Equal machines on one medium that may do anything: it loses, repeats, delays
and reorders.  What a machine has *said* stays on the record (`said`), and some
of its events are that it *hears* something: what one of them has said, or what
comes from elsewhere (`Heard`).

* `stepAt` lets one machine handle one event.
* `run_truthful`: if a machine that hears only what is true says only what is
  true, nothing false is ever said or heard.

### A medium without a state

No queue stands between the machines.  A message that has been said once may be
heard by anybody, at any later time, any number of times, or never, so the
record of what has been said *is* the medium.  That is the weakest medium there
is: a network that keeps order, or delivers once, or delivers only to the
addressee, has fewer runs, and what holds of all runs here holds of its runs.

### What is load-bearing

Truth (`Holds`) is a property of the message alone, not of the state in which
it is heard.  A statement that becomes false while a message is on its way has
no place here; one that is fixed by the configuration of the stations, such as
which address belongs to whom, does.  `foreign` is what may come from stations
that are not modelled: they have to be truthful as well, and nothing else is
asked of them.
-/

namespace EventSystem

universe u v w x

variable {ι : Type u} [DecidableEq ι]
variable {σ : Type u} {ε : Type v} {φ : Type w} {μ : Type x}

variable (step : σ → ε → Except φ σ)

/-- One of the machines handles an event; the others stay as they are. -/
def stepAt (s : ι → σ) (e : ι × ε) : Except φ (ι → σ) := do
  return Function.update s e.1 (← step (s e.1) e.2)

variable (said : σ → List μ) (hears : ε → Option μ) (foreign : μ → Prop)

/-- What is heard has been said by one of the machines, at whatever time, or
comes from elsewhere.  An event with which nothing is heard is free. -/
def Heard (s : ι → σ) (e : ι × ε) : Prop :=
  ∀ m, hears e.2 = some m → foreign m ∨ ∃ j, m ∈ said (s j)

variable {step said hears foreign} {ok : ι → σ → ε → Prop}

/-- **Nothing false is ever heard.**  `P` is what a machine keeps as long as
everything it hears is true, and what makes it say nothing else.  Then no run
aborts, and all machines keep it to the end: the first false message would have
to be said by a machine that has only heard true ones. -/
theorem run_truthful {Holds : μ → Prop} {P : ι → σ → Prop}
    (hkeep : ∀ i s e, P i s → ok i s e → (∀ m, hears e = some m → Holds m) →
      ∃ s', step s e = .ok s' ∧ P i s')
    (hsaid : ∀ i s, P i s → ∀ m ∈ said s, Holds m) (hforeign : ∀ m, foreign m → Holds m)
    {s : ι → σ} {es : List (ι × ε)} (hinv : ∀ i, P i (s i))
    (hadm : Admitted (stepAt step)
      (fun s e => ok e.1 (s e.1) e.2 ∧ Heard said hears foreign s e) s es) :
    ∃ s', run (stepAt step) s es = .ok s' ∧ ∀ i, P i (s' i) := by
  refine run_total (P := fun s => ∀ i, P i (s i)) ?_ hinv hadm
  rintro s ⟨i, e⟩ hs ⟨hok, hheard⟩
  have hholds : ∀ m, hears e = some m → Holds m := by
    intro m hm
    rcases hheard m hm with helsewhere | ⟨j, hj⟩
    · exact hforeign m helsewhere
    · exact hsaid j (s j) (hs j) m hj
  obtain ⟨t, ht, hP⟩ := hkeep i (s i) e (hs i) hok hholds
  refine ⟨Function.update s i t, ?_, fun k => ?_⟩
  · rw [stepAt, ht]
    rfl
  · by_cases hk : k = i
    · subst hk
      rw [Function.update_self]
      exact hP
    · rw [Function.update_of_ne hk]
      exact hs k

end EventSystem
