import Mstack.Lib.EventSystem

/-!
# Systems made of components

A system may hold machines that are made while it runs: sessions, connections,
jobs.  `view k` finds the machine `k` in the state, if it has been made, and
`seen k` says what an event of the system is to this machine: none, one or
several events of its own.

`Composed` says that the system is nothing but these machines: what an event
does to each of them is what its own events do (`Evolves`), and where the
system aborts, one of them does (`Fails`).  Then every run of the system is,
for each of its machines, a run of that machine alone:

* `Composed.run_evolves` — where the run succeeds, so does the run of each
  machine;
* `Composed.run_blames` — where the run aborts, the run of some machine aborts
  with the same.

### What a run is to one machine

`heard` is the projection of a run to a machine: what `seen` makes of each
event, in the state in which it is handled, one behind the other.  It has to be
computed along the run, since what an event is to a machine depends on the
state: a handler at the front of a common queue belongs to one machine or to
another.  The event that aborts is heard as well, so that the run of the
machine to blame aborts too.

### Machines that are made

`view k` is an `Option`.  A machine that has not been made hears nothing; the
event that makes it may already be something to it, so that `Evolves.appears`
lets it run from the state in which it was made.  `born` is all that is said of
that state.  With these three cases `Evolves` composes (`Evolves.trans`), which
is the whole induction.

### What is load-bearing

The invariant `P` is the system's, not the machine's: it says what the system
has to keep true of its own bookkeeping (whose handler is whose, who holds
what) for an event to be what `seen` says it is.  Only `keeps` speaks of it;
the two conclusions do not, so that a property of the machine alone, proved
once, holds of every machine of the system.

`run_map` is the other way to put a machine into something larger: a record
with one machine in it steps as that machine does, and so runs as it does.
-/

namespace EventSystem

universe u v w x y z

variable {σ : Type u} {ε : Type v} {φ : Type w}
variable {ι : Type z} {τ : Type u} {δ : Type x} {ψ : Type y}

section Heard

variable (step : σ → ε → Except φ σ) (seen : σ → ε → List δ)

/-- What a run of the system is to a machine, event by event.  The event that
aborts the run is the last one: a machine that aborts has heard what made it
abort. -/
def heard : σ → List ε → List δ
  | _, [] => []
  | s, e :: es => seen s e ++ (step s e).toOption.elim [] fun s' => heard s' es

@[simp] theorem heard_nil (s : σ) : heard step seen s [] = [] := rfl

variable {step seen}

/-- Behind an event that succeeds the run goes on. -/
theorem heard_cons_ok {s s' : σ} {e : ε} {es : List ε} (h : step s e = .ok s') :
    heard step seen s (e :: es) = seen s e ++ heard step seen s' es := by
  rw [heard, h]
  rfl

/-- Behind an event that aborts nothing is heard. -/
theorem heard_cons_error {s : σ} {e : ε} {es : List ε} {f : φ} (h : step s e = .error f) :
    heard step seen s (e :: es) = seen s e := by
  rw [heard, h]
  exact List.append_nil _

end Heard

/-! ## One machine -/

section Machine

variable (stepC : τ → δ → Except ψ τ) (born : τ → Prop)

/-- **What becomes of a machine.**  It runs; or it is made, in a state that
`born` admits, and runs; or it has not been made and hears nothing.  No other
case is allowed: a machine is never removed, and one that does not exist has no
events. -/
inductive Evolves : Option τ → List δ → Option τ → Prop where
  | lives {t t' : τ} {ds : List δ} (hrun : run stepC t ds = .ok t') : Evolves (some t) ds (some t')
  | appears {t t' : τ} {ds : List δ} (hborn : born t) (hrun : run stepC t ds = .ok t') :
      Evolves none ds (some t')
  | absent : Evolves none [] none

/-- **A machine aborts**, either one that was there or one that is made in the
same event. -/
inductive Fails : Option τ → List δ → ψ → Prop where
  | lives {t : τ} {ds : List δ} {f : ψ} (hrun : run stepC t ds = .error f) : Fails (some t) ds f
  | appears {t : τ} {ds : List δ} {f : ψ} (hborn : born t) (hrun : run stepC t ds = .error f) :
      Fails none ds f

variable {stepC born}

/-- Nothing is heard, and nothing happens. -/
theorem Evolves.refl (o : Option τ) : Evolves stepC born o [] o := by
  cases o with
  | none => exact .absent
  | some t => exact .lives rfl

/-- **One thing after another.**  What becomes of a machine in two parts of a
run is what becomes of it in both. -/
theorem Evolves.trans {o o' o'' : Option τ} {ds ds' : List δ} (h : Evolves stepC born o ds o')
    (h' : Evolves stepC born o' ds' o'') : Evolves stepC born o (ds ++ ds') o'' := by
  cases h with
  | lives hrun =>
      cases h' with
      | lives hrun' => exact .lives (by rw [run_append, hrun]; exact hrun')
  | appears hborn hrun =>
      cases h' with
      | lives hrun' => exact .appears hborn (by rw [run_append, hrun]; exact hrun')
  | absent => exact h'

/-- Nothing is heard behind an abort. -/
theorem Fails.append {o : Option τ} {ds : List δ} {f : ψ} (h : Fails stepC born o ds f)
    (ds' : List δ) : Fails stepC born o (ds ++ ds') f := by
  cases h with
  | lives hrun => exact .lives (by rw [run_append, hrun]; rfl)
  | appears hborn hrun => exact .appears hborn (by rw [run_append, hrun]; rfl)

/-- A machine that has come so far aborts: it aborts in the run as a whole. -/
theorem Evolves.fails {o o' : Option τ} {ds ds' : List δ} {f : ψ}
    (h : Evolves stepC born o ds o') (h' : Fails stepC born o' ds' f) :
    Fails stepC born o (ds ++ ds') f := by
  cases h with
  | lives hrun =>
      cases h' with
      | lives hrun' => exact .lives (by rw [run_append, hrun]; exact hrun')
  | appears hborn hrun =>
      cases h' with
      | lives hrun' => exact .appears hborn (by rw [run_append, hrun]; exact hrun')
  | absent => exact h'

end Machine

section Map

variable {α : Type u} {stepA : α → δ → Except ψ α} {stepC : τ → δ → Except ψ τ} {wrap : τ → α}

/-- **A machine in a record.**  If one step of the record is one step of the
machine inside it, a run of the record is a run of the machine. -/
theorem run_map (h : ∀ t d, stepA (wrap t) d = (stepC t d).map wrap) (t : τ) (ds : List δ) :
    run stepA (wrap t) ds = (run stepC t ds).map wrap := by
  induction ds generalizing t with
  | nil => rfl
  | cons d ds ih =>
      rw [run_cons, run_cons, h]
      cases stepC t d with
      | error f => rfl
      | ok u => exact ih u

/-- Such a run succeeds where that of the machine does. -/
theorem run_map_ok (h : ∀ t d, stepA (wrap t) d = (stepC t d).map wrap) {t : τ} {ds : List δ}
    {a : α} : run stepA (wrap t) ds = .ok a ↔ ∃ u, run stepC t ds = .ok u ∧ a = wrap u := by
  rw [run_map h]
  cases run stepC t ds with
  | error f => simp [Except.map]
  | ok u => simp [Except.map, eq_comm]

/-- It aborts where that of the machine does. -/
theorem run_map_error (h : ∀ t d, stepA (wrap t) d = (stepC t d).map wrap) {t : τ} {ds : List δ}
    {f : ψ} : run stepA (wrap t) ds = .error f ↔ run stepC t ds = .error f := by
  rw [run_map h]
  cases run stepC t ds <;> simp [Except.map]

end Map

/-! ## The system -/

variable {step : σ → ε → Except φ σ} {stepC : τ → δ → Except ψ τ}
variable {P : σ → Prop} {view : ι → σ → Option τ} {seen : ι → σ → ε → List δ}
variable {born : ι → τ → Prop} {fault : ψ → φ}

variable (step stepC P view seen born fault) in
/-- **The system is made of its machines.**  `keeps` is about the system's own
invariant, `evolves` about an event that succeeds, and `blames` about one that
aborts.  `fault` is how an abort of a machine looks from outside; an abort of
another kind is not a machine's. -/
structure Composed : Prop where
  keeps : ∀ s e s', P s → step s e = .ok s' → P s'
  evolves : ∀ s e s' k, P s → step s e = .ok s' →
    Evolves stepC (born k) (view k s) (seen k s e) (view k s')
  blames : ∀ s e f, P s → step s e = .error (fault f) →
    ∃ k, Fails stepC (born k) (view k s) (seen k s e) f

namespace Composed

variable {s s' : σ} {es : List ε}

/-- **Each machine runs alone.**  Where a run of the system succeeds, what has
become of machine `k` is what a run of that machine with its own events makes
of it. -/
theorem run_evolves (h : Composed step stepC P view seen born fault) (hP : P s)
    (hrun : run step s es = .ok s') (k : ι) :
    Evolves stepC (born k) (view k s) (heard step (seen k) s es) (view k s') := by
  induction es generalizing s with
  | nil =>
      obtain rfl := Except.ok.inj hrun
      exact .refl _
  | cons e es ih =>
      obtain ⟨t, ht, hrest⟩ := bind_eq_ok.mp hrun
      rw [heard_cons_ok ht]
      exact (h.evolves s e t k hP ht).trans (ih (h.keeps s e t hP ht) hrest)

/-- **An abort is the abort of one machine.**  Where the run of the system
aborts with the fault of a machine, there is a machine whose own run, with its
own events, aborts with it. -/
theorem run_blames {f : ψ} (h : Composed step stepC P view seen born fault) (hP : P s)
    (hrun : run step s es = .error (fault f)) :
    ∃ k, Fails stepC (born k) (view k s) (heard step (seen k) s es) f := by
  induction es generalizing s with
  | nil => cases hrun
  | cons e es ih =>
      rcases bind_eq_error.mp hrun with hhere | ⟨t, ht, hrest⟩
      · obtain ⟨k, hk⟩ := h.blames s e f hP hhere
        exact ⟨k, by rw [heard_cons_error hhere]; exact hk⟩
      · obtain ⟨k, hk⟩ := ih (h.keeps s e t hP ht) hrest
        exact ⟨k, by rw [heard_cons_ok ht]; exact (h.evolves s e t k hP ht).fails hk⟩

end Composed

end EventSystem
