import Mathlib

/-!
# Deterministic event systems that may abort

A program driven by an event loop is, seen from outside, a **deterministic step
function that may abort**: `step : σ → ε → Except φ σ` handles one event in one
state, and an abort (a failed assertion, a null dereference) ends the run.

* `run` — handle a list of events, left to right.
* `Admitted` — every event of the list is admissible *in the state in which it
  is handled*.  Admissibility is a relation between state and event, because
  what an environment may do next depends on what it has already been told.

### Why the events are a list

An interleaving is a list: whoever acts next puts the next event on it.  A
theorem about every list of events is therefore a theorem about every
interleaving, every order of arrival and every schedule, and its proof is an
induction on a list.  Nothing has to be said about fairness, clocks or threads;
where a result needs some events to happen (`Lib.Drain`), it says which, in the
state in which they can.

### The induction rules

Each rule asks for a fact about one step and returns it for a run.  They differ
in what they say about aborts and in how exact they are.

* `run_invariant` is partial: what a step keeps, every state that is reached
  has.
* `run_total` also says that the run does not abort.
* `run_avoids` excludes one abort; `run_avoids_iff` says exactly when.
* `run_dichotomy` says exactly when an invariant is lost for good,
  `run_always_iff` when it is lost at all, `run_accumulates_iff` when a
  condition on all steps is what an invariant of the last state amounts to.
* `run_history` carries the list of events handled so far,
  `run_history_reached` also the run that led there.
* `run_origin` goes backwards: what holds at the end and did not hold at the
  start began to hold with one of the events.

### What is load-bearing

`Admitted` is asked *along* the run, not of the list: an event behind an abort
is not asked for anything, and an event may be inadmissible in one state and
admissible in the next.  It is what makes the exact rules exact.  Their
condition `ok'` is a relation on a state and an event, so that it can never
speak of what the step computes, and `Admitted step ok'` is then the condition
on the run.

Nothing here knows what a state or an event is.
-/

namespace EventSystem

universe u v w

variable {σ : Type u} {ε : Type v} {φ : Type w}

/-- Inversion of a sequenced computation that did not abort. -/
theorem bind_eq_ok {α β : Type u} {x : Except φ α} {f : α → Except φ β} {b : β} :
    (x >>= f) = .ok b ↔ ∃ a, x = .ok a ∧ f a = .ok b := by
  cases x <;> simp [bind, Except.bind]

/-- Inversion of a sequenced computation that aborted: the abort came from one
of the two halves. -/
theorem bind_eq_error {α β : Type u} {x : Except φ α} {f : α → Except φ β} {e : φ} :
    (x >>= f) = .error e ↔ x = .error e ∨ ∃ a, x = .ok a ∧ f a = .error e := by
  cases x <;> simp [bind, Except.bind]

@[simp] theorem ok_bind {α β : Type u} (a : α) (f : α → Except φ β) :
    ((Except.ok a : Except φ α) >>= f) = f a := rfl

@[simp] theorem error_bind {α β : Type u} (e : φ) (f : α → Except φ β) :
    ((Except.error e : Except φ α) >>= f) = .error e := rfl

section Run

variable (step : σ → ε → Except φ σ)

/-- Handle a list of events, left to right; the first abort ends the run.  The
result is the state reached or what the run aborted with: where it aborted is
not recorded, and no rule below needs it. -/
def run : σ → List ε → Except φ σ
  | s, [] => .ok s
  | s, e :: es => step s e >>= fun s' => run s' es

/-- Every event is admissible in the state in which it is handled.  An aborted
step leaves nothing to be admitted. -/
def Admitted (ok : σ → ε → Prop) : σ → List ε → Prop
  | _, [] => True
  | s, e :: es => ok s e ∧ ∀ s', step s e = .ok s' → Admitted ok s' es

@[simp] theorem run_nil (s : σ) : run step s [] = .ok s := rfl

/-- A run begins with its first event. -/
theorem run_cons (s : σ) (e : ε) (es : List ε) :
    run step s (e :: es) = step s e >>= fun s' => run step s' es := rfl

@[simp] theorem admitted_nil (ok : σ → ε → Prop) (s : σ) : Admitted step ok s [] := trivial

theorem admitted_cons (ok : σ → ε → Prop) (s : σ) (e : ε) (es : List ε) :
    Admitted step ok s (e :: es) ↔
      ok s e ∧ ∀ s', step s e = .ok s' → Admitted step ok s' es := Iff.rfl

/-- A run of two parts: the second one starts where the first one ends. -/
theorem run_append (s : σ) (es fs : List ε) :
    run step s (es ++ fs) = run step s es >>= fun s' => run step s' fs := by
  induction es generalizing s with
  | nil => rfl
  | cons e es ih =>
      rw [List.cons_append, run_cons, run_cons]
      cases step s e with
      | error f => rfl
      | ok s' => exact ih s'

/-- A run ends with its last event. -/
theorem run_concat (s : σ) (es : List ε) (e : ε) :
    run step s (es ++ [e]) = run step s es >>= fun s' => step s' e := by
  rw [run_append]
  congr 1
  funext s'
  rw [run_cons]
  cases step s' e <;> rfl

variable {step} {ok : σ → ε → Prop}

/-- An event that is admitted, and the rest of the run behind it. -/
theorem Admitted.cons {s s' : σ} {e : ε} {es : List ε} (hok : ok s e) (hstep : step s e = .ok s')
    (hrest : Admitted step ok s' es) : Admitted step ok s (e :: es) := by
  refine ⟨hok, fun t ht => ?_⟩
  rw [hstep] at ht
  cases ht
  exact hrest

/-- A run of one event. -/
theorem Admitted.single {s : σ} {e : ε} (hok : ok s e) : Admitted step ok s [e] :=
  ⟨hok, fun _ _ => trivial⟩

/-- A weaker admissibility admits more runs. -/
theorem Admitted.mono {ok' : σ → ε → Prop} (himp : ∀ s e, ok s e → ok' s e) {s : σ}
    {es : List ε} (h : Admitted step ok s es) : Admitted step ok' s es := by
  induction es generalizing s with
  | nil => trivial
  | cons e es ih => exact ⟨himp _ _ h.1, fun s' hs' => ih (h.2 s' hs')⟩

/-- What is admissible in two ways is admissible in both at once. -/
theorem Admitted.and {ok' : σ → ε → Prop} {s : σ} {es : List ε} (h : Admitted step ok s es)
    (h' : Admitted step ok' s es) : Admitted step (fun s e => ok s e ∧ ok' s e) s es := by
  induction es generalizing s with
  | nil => trivial
  | cons e es ih => exact ⟨⟨h.1, h'.1⟩, fun s' hs' => ih (h.2 s' hs') (h'.2 s' hs')⟩

/-- What is left of a run, from the state its first part reaches. -/
theorem Admitted.of_append {s s' : σ} {es fs : List ε} (h : Admitted step ok s (es ++ fs))
    (hrun : run step s es = .ok s') : Admitted step ok s' fs := by
  induction es generalizing s with
  | nil => cases hrun; exact h
  | cons e es ih =>
      obtain ⟨t, ht, hrest⟩ := bind_eq_ok.mp hrun
      exact ih (h.2 t ht) hrest

/-- Events that are admissible in every state. -/
theorem admitted_of_mem {es : List ε} (h : ∀ e ∈ es, ∀ s, ok s e) (s : σ) :
    Admitted step ok s es := by
  induction es generalizing s with
  | nil => trivial
  | cons e es ih =>
      refine ⟨h e List.mem_cons_self s, fun s' _ => ih (fun e' he' => ?_) s'⟩
      exact h e' (List.mem_cons_of_mem e he')

/-- Where every event is admissible, so is every run. -/
theorem admitted_of_forall (h : ∀ s e, ok s e) (s : σ) (es : List ε) :
    Admitted step ok s es :=
  admitted_of_mem (fun e _ s => h s e) s

/-- Events that leave the state alone can be dropped from a run.  The condition
under which they do is asked in the state in which they are handled. -/
theorem run_filter {idle : ε → Bool}
    (hidle : ∀ s e s', idle e = true → ok s e → step s e = .ok s' → s' = s) {s s' : σ}
    {es : List ε} (hok : Admitted step ok s es) (hrun : run step s es = .ok s') :
    run step s (es.filter fun e => !idle e) = .ok s' := by
  induction es generalizing s with
  | nil => exact hrun
  | cons e es ih =>
      obtain ⟨u, hu, hrest⟩ := bind_eq_ok.mp hrun
      cases he : idle e with
      | true =>
          obtain rfl := hidle s e u he hok.1 hu
          rw [List.filter_cons_of_neg (by simp [he])]
          exact ih (hok.2 u hu) hrest
      | false =>
          rw [List.filter_cons_of_pos (by simp [he]), run_cons, hu]
          exact ih (hok.2 u hu) hrest

/-- Whether the events of a concrete run are admissible can be computed. -/
instance decidableAdmitted [∀ s e, Decidable (ok s e)] :
    (s : σ) → (es : List ε) → Decidable (Admitted step ok s es)
  | _, [] => isTrue trivial
  | s, e :: es =>
      match h : step s e with
      | .error f => decidable_of_iff (ok s e) (by rw [admitted_cons, h]; simp)
      | .ok s' =>
          have := decidableAdmitted s' es
          decidable_of_iff (ok s e ∧ Admitted step ok s' es) (by rw [admitted_cons, h]; simp)

/-- Two notions of admissibility that agree on the steps a run takes agree on
the run.  The invariant `P` may be needed to see that they agree. -/
theorem admitted_iff {ok' ok'' : σ → ε → Prop} {P : σ → Prop}
    (hstep : ∀ s e s', P s → ok s e → step s e = .ok s' → P s' ∧ (ok' s e ↔ ok'' s e))
    {s s' : σ} {es : List ε} (hinv : P s) (hadm : Admitted step ok s es)
    (hrun : run step s es = .ok s') :
    Admitted step ok' s es ↔ Admitted step ok'' s es := by
  induction es generalizing s with
  | nil => exact Iff.rfl
  | cons e es ih =>
      obtain ⟨t, ht, hrest⟩ := bind_eq_ok.mp hrun
      obtain ⟨hinvt, hiff⟩ := hstep s e t hinv hadm.1 ht
      rw [admitted_cons, admitted_cons, hiff, ht]
      simp [ih hinvt (hadm.2 t ht) hrest]

/-- **The invariant rule.**  What one admissible step preserves, every state
that a run of admissible events reaches has.  Nothing is said about runs that
abort. -/
theorem run_invariant {P : σ → Prop}
    (hstep : ∀ s e s', P s → ok s e → step s e = .ok s' → P s')
    {s s' : σ} {es : List ε} (hinv : P s) (hadm : Admitted step ok s es)
    (hrun : run step s es = .ok s') : P s' := by
  induction es generalizing s with
  | nil => cases hrun; exact hinv
  | cons e es ih =>
      obtain ⟨t, ht, hrest⟩ := bind_eq_ok.mp hrun
      exact ih (hstep s e t hinv hadm.1 ht) (hadm.2 t ht) hrest

/-- **The total rule.**  If every admissible step from an invariant state
succeeds and keeps the invariant, no run of admissible events aborts.  It is
the rule for results that promise a state, where `run_invariant` only speaks of
one that has been reached. -/
theorem run_total {P : σ → Prop}
    (hstep : ∀ s e, P s → ok s e → ∃ s', step s e = .ok s' ∧ P s')
    {s : σ} {es : List ε} (hinv : P s) (hadm : Admitted step ok s es) :
    ∃ s', run step s es = .ok s' ∧ P s' := by
  induction es generalizing s with
  | nil => exact ⟨s, rfl, hinv⟩
  | cons e es ih =>
      obtain ⟨t, ht, hinvt⟩ := hstep s e hinv hadm.1
      obtain ⟨s', hs', hinv'⟩ := ih hinvt (hadm.2 t ht)
      exact ⟨s', by rw [run_cons, ht]; exact hs', hinv'⟩

/-- **The avoidance rule.**  An abort that no admissible step from an invariant
state raises, no run raises. -/
theorem run_avoids {P : σ → Prop} {f : φ}
    (hstep : ∀ s e s', P s → ok s e → step s e = .ok s' → P s')
    (hno : ∀ s e, P s → ok s e → step s e ≠ .error f)
    {s : σ} {es : List ε} (hinv : P s) (hadm : Admitted step ok s es) :
    run step s es ≠ .error f := by
  induction es generalizing s with
  | nil => nofun
  | cons e es ih =>
      intro h
      rcases bind_eq_error.mp h with h | ⟨t, ht, h⟩
      · exact hno s e hinv hadm.1 h
      · exact ih (hstep s e t hinv hadm.1 ht) (hadm.2 t ht) h

/-- A run aborts with what one of its steps aborts with. -/
theorem run_error {s : σ} {es : List ε} {f : φ} (h : run step s es = .error f) :
    ∃ t, ∃ e ∈ es, step t e = .error f := by
  induction es generalizing s with
  | nil => cases h
  | cons e es ih =>
      rcases bind_eq_error.mp h with h | ⟨t, -, h⟩
      · exact ⟨s, e, List.mem_cons_self, h⟩
      · obtain ⟨u, e', hmem, hu⟩ := ih h
        exact ⟨u, e', List.mem_cons_of_mem e hmem, hu⟩

/-- **The exact avoidance rule.**  If `ok'` is exactly what keeps one step from
an abort, then it is exactly what keeps a run from it. -/
theorem run_avoids_iff {ok' : σ → ε → Prop} {P : σ → Prop} {f : φ}
    (hstep : ∀ s e s', P s → ok s e → step s e = .ok s' → P s')
    (hno : ∀ s e, P s → ok s e → (step s e ≠ .error f ↔ ok' s e))
    {s : σ} {es : List ε} (hinv : P s) (hadm : Admitted step ok s es) :
    run step s es ≠ .error f ↔ Admitted step ok' s es := by
  induction es generalizing s with
  | nil => exact iff_of_true nofun trivial
  | cons e es ih =>
      rw [admitted_cons, ← hno s e hinv hadm.1, run_cons, ne_eq, bind_eq_error, not_or]
      refine and_congr_right fun _ => ?_
      constructor
      · intro h s' hs'
        rw [← ih (hstep s e s' hinv hadm.1 hs') (hadm.2 s' hs')]
        exact fun herror => h ⟨s', hs', herror⟩
      · rintro h ⟨s', hs', herror⟩
        exact (ih (hstep s e s' hinv hadm.1 hs') (hadm.2 s' hs')).mpr (h s' hs') herror

/-- **The dichotomy rule.**  If `ok'` is exactly what keeps a step inside `P`,
and a step that leaves `P` is lost for good, then a run ends inside `P` or is
lost, according to whether all its steps meet `ok'`. -/
theorem run_dichotomy {ok' : σ → ε → Prop} {P L : σ → Prop}
    (hstep : ∀ s e s', P s → ok s e → step s e = .ok s' → (ok' s e → P s') ∧ (¬ ok' s e → L s'))
    (hlost : ∀ s e s', L s → ok s e → step s e = .ok s' → L s')
    {s s' : σ} {es : List ε} (hinv : P s) (hadm : Admitted step ok s es)
    (hrun : run step s es = .ok s') :
    (Admitted step ok' s es ∧ P s') ∨ (¬ Admitted step ok' s es ∧ L s') := by
  induction es generalizing s with
  | nil => cases hrun; exact .inl ⟨trivial, hinv⟩
  | cons e es ih =>
      obtain ⟨t, ht, hrest⟩ := bind_eq_ok.mp hrun
      obtain ⟨hgood, hbad⟩ := hstep s e t hinv hadm.1 ht
      by_cases hok : ok' s e
      · rcases ih (hgood hok) (hadm.2 t ht) hrest with ⟨hadm', hend⟩ | ⟨hnot, hend⟩
        · refine .inl ⟨⟨hok, fun t' ht' => ?_⟩, hend⟩
          obtain rfl : t = t' := Except.ok.inj (ht.symm.trans ht')
          exact hadm'
        · exact .inr ⟨fun hadm' => hnot (hadm'.2 t ht), hend⟩
      · exact .inr ⟨fun hadm' => hok hadm'.1, run_invariant hlost (hbad hok) (hadm.2 t ht) hrest⟩

/-- **The rule of every state.**  If `ok'` is exactly what keeps a step inside
`P`, then `P` holds in every state of a run if and only if all its steps meet
`ok'`.  `J` is what the steps keep in any case. -/
theorem run_always_iff {ok' : σ → ε → Prop} {J P : σ → Prop}
    (hkeep : ∀ s e s', J s → ok s e → step s e = .ok s' → J s')
    (hstep : ∀ s e s', J s → P s → ok s e → step s e = .ok s' → (P s' ↔ ok' s e))
    {s s' : σ} {es : List ε} (hJ : J s) (hinv : P s) (hadm : Admitted step ok s es)
    (hrun : run step s es = .ok s') :
    (∀ past rest t, es = past ++ rest → run step s past = .ok t → P t) ↔
      Admitted step ok' s es := by
  induction es generalizing s with
  | nil =>
      refine iff_of_true (fun past rest t hnil ht => ?_) trivial
      obtain ⟨rfl, -⟩ := List.append_eq_nil_iff.mp hnil.symm
      cases ht
      exact hinv
  | cons e es ih =>
      obtain ⟨u, hu, hrest⟩ := bind_eq_ok.mp hrun
      have hiff := hstep s e u hJ hinv hadm.1 hu
      rw [admitted_cons]
      constructor
      · intro h
        have hPu : P u := h [e] es u rfl (by rw [run_cons, hu]; rfl)
        refine ⟨hiff.mp hPu, fun t ht => ?_⟩
        obtain rfl : u = t := Except.ok.inj (hu.symm.trans ht)
        refine (ih (hkeep s e u hJ hadm.1 hu) hPu (hadm.2 u hu) hrest).mp ?_
        intro past rest t hes ht
        exact h (e :: past) rest t (by rw [hes]; rfl) (by rw [run_cons, hu]; exact ht)
      · rintro ⟨hok, hadm'⟩ past rest t hes ht
        cases past with
        | nil => cases ht; exact hinv
        | cons e' past =>
            obtain ⟨rfl, hes'⟩ := List.cons_eq_cons.mp hes
            obtain ⟨u', hu', ht⟩ := bind_eq_ok.mp ht
            obtain rfl : u = u' := Except.ok.inj (hu.symm.trans hu')
            exact (ih (hkeep s e u hJ hadm.1 hu) (hiff.mpr hok) (hadm.2 u hu) hrest).mpr
              (hadm' u hu) past rest t hes' ht

/-- **The rule of what accumulates.**  If a step ends in `P` exactly if it
starts in `P` and meets `ok'`, so does a run.  `J` is what the steps keep in
any case. -/
theorem run_accumulates_iff {ok' : σ → ε → Prop} {J P : σ → Prop}
    (hkeep : ∀ s e s', J s → ok s e → step s e = .ok s' → J s')
    (hstep : ∀ s e s', J s → ok s e → step s e = .ok s' → (P s' ↔ P s ∧ ok' s e))
    {s s' : σ} {es : List ε} (hJ : J s) (hadm : Admitted step ok s es)
    (hrun : run step s es = .ok s') : P s' ↔ P s ∧ Admitted step ok' s es := by
  induction es generalizing s with
  | nil =>
      cases hrun
      exact (and_iff_left trivial).symm
  | cons e es ih =>
      obtain ⟨t, ht, hrest⟩ := bind_eq_ok.mp hrun
      have hrest' : Admitted step ok' s (e :: es) ↔ ok' s e ∧ Admitted step ok' t es := by
        rw [admitted_cons, ht]
        simp
      rw [ih (hkeep s e t hJ hadm.1 ht) (hadm.2 t ht) hrest, hstep s e t hJ hadm.1 ht, hrest',
        and_assoc]

/-- **The history rule.**  An invariant that also speaks about the events
already handled.  It is the rule for conservation laws that compare the state
with everything that has been asked of it. -/
theorem run_history {P : List ε → σ → Prop}
    (hstep : ∀ past s e s', P past s → ok s e → step s e = .ok s' → P (past ++ [e]) s')
    {s s' : σ} {es : List ε} (hinv : P [] s) (hadm : Admitted step ok s es)
    (hrun : run step s es = .ok s') : P es s' := by
  suffices h : ∀ (rest past : List ε) (s : σ), P past s → Admitted step ok s rest →
      run step s rest = .ok s' → P (past ++ rest) s' from h es [] s hinv hadm hrun
  intro rest
  induction rest with
  | nil =>
      intro past s hinv _ hrun
      cases hrun
      rwa [List.append_nil]
  | cons e es ih =>
      intro past s hinv hadm hrun
      obtain ⟨t, ht, hrest⟩ := bind_eq_ok.mp hrun
      have hnext := ih (past ++ [e]) t (hstep past s e t hinv hadm.1 ht) (hadm.2 t ht) hrest
      rwa [List.append_assoc] at hnext

/-- The history rule where the invariant needs the run that led to the state,
for instance to read off it what earlier events have added. -/
theorem run_history_reached {P : List ε → σ → Prop} {s s' : σ} {es : List ε}
    (hstep : ∀ past t e t', run step s past = .ok t → P past t → ok t e → step t e = .ok t' →
      P (past ++ [e]) t')
    (hinv : P [] s) (hadm : Admitted step ok s es) (hrun : run step s es = .ok s') : P es s' := by
  refine (run_history (P := fun past t => run step s past = .ok t ∧ P past t) ?_ ⟨rfl, hinv⟩
    hadm hrun).2
  rintro past t e t' ⟨hpast, ht⟩ hok ht'
  exact ⟨by rw [run_concat, hpast, ok_bind, ht'], hstep past t e t' hpast ht hok ht'⟩

/-- What the events of a run add to a list, event by event: the last one adds
at the end. -/
theorem gathered_concat {α : Type*} {s s' : σ} {es : List ε}
    {gathered : σ → List ε → List α} {adds : σ → ε → List α}
    (hnil : ∀ s, gathered s [] = [])
    (hcons : ∀ s e es, gathered s (e :: es) = adds s e ++
      match step s e with
      | .ok s' => gathered s' es
      | .error _ => [])
    (e : ε) (hrun : run step s es = .ok s') :
    gathered s (es ++ [e]) = gathered s es ++ adds s' e := by
  induction es generalizing s with
  | nil =>
      cases hrun
      rw [List.nil_append, hcons, hnil, List.nil_append]
      cases step s' e <;> simp [hnil]
  | cons e' es ih =>
      obtain ⟨t, ht, hrest⟩ := bind_eq_ok.mp hrun
      rw [List.cons_append, hcons, hcons, ht, List.append_assoc]
      exact congrArg (adds s e' ++ ·) (ih hrest)

/-- **The origin rule.**  What holds after a run and did not hold before it
begins to hold with one of its events: the run is cut there, and the event was
admissible. -/
theorem run_origin {P : σ → Prop} {s s' : σ} {es : List ε} (hadm : Admitted step ok s es)
    (hrun : run step s es = .ok s') (hbefore : ¬ P s) (hafter : P s') :
    ∃ past e rest u v, es = past ++ e :: rest ∧ run step s past = .ok u ∧ step u e = .ok v ∧
      ok u e ∧ ¬ P u ∧ P v := by
  induction es generalizing s with
  | nil =>
      cases hrun
      exact (hbefore hafter).elim
  | cons e es ih =>
      obtain ⟨t, ht, hrest⟩ := bind_eq_ok.mp hrun
      by_cases hPt : P t
      · exact ⟨[], e, es, s, t, rfl, rfl, ht, hadm.1, hbefore, hPt⟩
      · obtain ⟨past, e', rest, u, v, rfl, hpast, hstep, hok, hu, hv⟩ :=
          ih (hadm.2 t ht) hrest hPt
        exact ⟨e :: past, e', rest, u, v, rfl, by rw [run_cons, ht]; exact hpast, hstep, hok, hu, hv⟩

end Run

end EventSystem
