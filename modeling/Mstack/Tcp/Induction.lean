import Mstack.Tcp.Outcome

/-!
# Induction over events

The application's calls in closed form, and the rules that the results about
whole runs are proved with.

An event is made of four kinds of move: a segment arrives, the application
makes a call, a handler is taken off the queue (and its callback invoked), a
packet is sent.  The handlers of `io_ctx_` are made of the last three: a
callback may make any number of calls, a read completion acknowledges what was
read with a packet, and the send loop sends until nothing is left.  So a
property of blocks that each of the four moves preserves holds in every state
of every run.

### Main results

* `step_induction`, `run_induction` — the rule, for one event and for a run.
  `segOk` and `callOk` are conditions on the environment that may look at the
  block.
* `step_total` — the same for properties that also exclude an abort.
* `appCall_error_iff`, `task_error` — what the moves of the application abort
  with.  A handler can only miss the send queue or room in it; all other faults
  belong to segments.

### What is load-bearing

The send loop is the one loop here, and the rule goes into it:
`sendLoop_preserves` induces on its fuel once, `step_induction` uses that, and
an invariant only has to survive **one** packet.  What the loop does as a whole
is a question of its own (`Tcp.SendLoop`).
-/

namespace Mstack

namespace Tcb

open EventSystem (bind_eq_ok)

/-! ## Application calls

Each call has a closed form, and `CallOutcome` lists them. -/

/-- The block after `async_write`, for the queue `pq`. -/
def afterWrite (t : Tcb) (pq : CircularBuffer Byte) (buf : List Byte) (cb : CallbackId) : Tcb :=
  { t with
    ioCtx := t.ioCtx ++ [.sendLoop] ++ [.writeDone cb buf.length]
    send := { t.send with pq := some (pq.insertEnd buf) }
    trace := { t.trace with written := t.trace.written ++ [buf] } }

/-- **`async_write` in closed form.**  It dereferences the queue, asserts that
the buffer fits, and posts the send loop. -/
theorem asyncWrite_eq (t : Tcb) (buf : List Byte) (cb : CallbackId) :
    t.asyncWrite buf cb =
      match t.send.pq with
      | none => .error .nullSendQueue
      | some pq =>
          if pq.size + buf.length > pq.capacity then .error .sendQueueCapacity
          else .ok (t.afterWrite pq buf cb) := by
  unfold asyncWrite enqueueAppData sendPq
  dsimp only
  cases t.send.pq with
  | none => rfl
  | some pq =>
      simp only [EventSystem.ok_bind]
      split <;> rfl

theorem asyncWrite_ok {t t' : Tcb} {buf : List Byte} {cb : CallbackId} :
    t.asyncWrite buf cb = .ok t' ↔
      ∃ pq, t.send.pq = some pq ∧ pq.size + buf.length ≤ pq.capacity ∧
        t' = t.afterWrite pq buf cb := by
  rw [asyncWrite_eq]
  cases t.send.pq with
  | none => simp
  | some pq =>
      by_cases hfit : pq.size + buf.length > pq.capacity
      · simp [hfit]
      · simp [hfit, Nat.le_of_not_gt hfit, eq_comm]

/-- The block after `async_read_some` out of a non-empty queue. -/
def afterRead (t : Tcb) (size : ℕ) (cb : CallbackId) : Tcb :=
  let n := min t.rcv.pq.size size
  { t with
    ioCtx := t.ioCtx ++ [.readDone cb n]
    rcv :=
      { state := { t.rcv.state with next := t.rcv.state.next + BitVec.ofNat 32 n }
        pq := t.rcv.pq.eraseBegin n }
    trace := { t.trace with copied := t.trace.copied ++ [(cb, t.rcv.pq.data.take n)] } }

/-- The block after `async_read_some` on an empty queue. -/
def afterWait (t : Tcb) (size : ℕ) (cb : CallbackId) : Tcb :=
  { t with onDataReceive := t.onDataReceive ++ [⟨size, cb⟩] }

theorem asyncReadSome_eq (t : Tcb) (size : ℕ) (cb : CallbackId) :
    t.asyncReadSome size cb =
      if t.rcv.pq.data = [] then t.afterWait size cb else t.afterRead size cb := by
  unfold asyncReadSome
  by_cases hempty : t.rcv.pq.data = []
  · rw [if_pos hempty, if_neg (by simp [hempty])]
    rfl
  · rw [if_neg hempty, if_pos (by simp [CircularBuffer.empty, hempty])]
    rfl

/-- The ways out of an application call.  A read never fails; a write needs a
queue with room. -/
inductive CallOutcome (t : Tcb) : AppCall → Tcb → Prop where
  | waits (size : ℕ) (cb : CallbackId) (hempty : t.rcv.pq.data = []) :
      CallOutcome t (.read size cb) (t.afterWait size cb)
  | reads (size : ℕ) (cb : CallbackId) (hdata : t.rcv.pq.data ≠ []) :
      CallOutcome t (.read size cb) (t.afterRead size cb)
  | writes (buf : List Byte) (cb : CallbackId) (pq : CircularBuffer Byte)
      (hpq : t.send.pq = some pq) (hfit : pq.size + buf.length ≤ pq.capacity) :
      CallOutcome t (.write buf cb) (t.afterWrite pq buf cb)

theorem appCall_cases {t t' : Tcb} {c : AppCall} (h : t.appCall c = .ok t') :
    CallOutcome t c t' := by
  cases c with
  | read size cb =>
      change Except.ok (t.asyncReadSome size cb) = .ok t' at h
      rw [asyncReadSome_eq] at h
      split at h
      · rename_i hempty
        cases h
        exact .waits size cb hempty
      · rename_i hdata
        cases h
        exact .reads size cb hdata
  | write buf cb =>
      obtain ⟨pq, hpq, hfit, rfl⟩ := asyncWrite_ok.mp h
      exact .writes buf cb pq hpq hfit

/-- No application call takes the send queue away. -/
theorem appCall_keeps_queue (t : Tcb) (c : AppCall) (t' : Tcb)
    (hpq : ∃ pq, t.send.pq = some pq) (h : t.appCall c = .ok t') :
    ∃ pq, t'.send.pq = some pq := by
  cases appCall_cases h with
  | waits size cb hempty => exact hpq
  | reads size cb hdata => exact hpq
  | writes buf cb pq hpq hfit => exact ⟨_, rfl⟩

/-- **What a call aborts with**: only a write does, for want of a queue or of
room in it.  Both directions, so that results about runs can turn "does not
abort" into a condition on the calls. -/
theorem appCall_error_iff {t : Tcb} {c : AppCall} {f : Fault} :
    t.appCall c = .error f ↔ ∃ buf cb, c = .write buf cb ∧
      ((t.send.pq = none ∧ f = .nullSendQueue) ∨
        ∃ pq, t.send.pq = some pq ∧ pq.capacity < pq.size + buf.length ∧
          f = .sendQueueCapacity) := by
  cases c with
  | read size cb => simp [appCall]
  | write buf cb =>
      rw [appCall, asyncWrite_eq]
      cases t.send.pq with
      | none => simp [eq_comm]
      | some pq =>
          by_cases hfit : pq.capacity < pq.size + buf.length
          · simp [hfit, eq_comm]
          · simp [hfit]

/-- Where there is a queue, a call aborts only for want of room. -/
theorem appCall_error {t : Tcb} {c : AppCall} {f : Fault} (hpq : ∃ pq, t.send.pq = some pq)
    (h : t.appCall c = .error f) : f = .sendQueueCapacity := by
  obtain ⟨buf, cb, -, ⟨hnone, -⟩ | ⟨-, -, -, hf⟩⟩ := appCall_error_iff.mp h
  · obtain ⟨pq, hpq⟩ := hpq
    rw [hpq] at hnone
    cases hnone
  · exact hf

theorem appCall_error_cases {t : Tcb} {c : AppCall} {f : Fault} (h : t.appCall c = .error f) :
    f = .nullSendQueue ∨ f = .sendQueueCapacity := by
  obtain ⟨buf, cb, -, ⟨-, hf⟩ | ⟨-, -, -, hf⟩⟩ := appCall_error_iff.mp h
  · exact .inl hf
  · exact .inr hf

/-! ## Taking a handler off the queue

The queue gets shorter, a callback is noted as invoked, and everything else
stays. -/

section EnterTask

variable (t : Tcb) (k : ℕ) (task : Task)

theorem enterTask_eq : t.enterTask k task =
    { t with
      ioCtx := t.ioCtx.eraseIdx k
      trace := { t.trace with called := t.trace.called ++ (invokes task).toList } } := by
  cases task <;> simp [enterTask, invokes, call]

@[simp] theorem enterTask_state : (t.enterTask k task).state = t.state := by
  rw [enterTask_eq]
@[simp] theorem enterTask_nextState : (t.enterTask k task).nextState = t.nextState := by
  rw [enterTask_eq]
@[simp] theorem enterTask_ioCtx : (t.enterTask k task).ioCtx = t.ioCtx.eraseIdx k := by
  rw [enterTask_eq]
@[simp] theorem enterTask_mngr : (t.enterTask k task).mngr = t.mngr := by
  rw [enterTask_eq]
@[simp] theorem enterTask_send : (t.enterTask k task).send = t.send := by
  rw [enterTask_eq]
@[simp] theorem enterTask_rcv : (t.enterTask k task).rcv = t.rcv := by
  rw [enterTask_eq]
@[simp] theorem enterTask_onDataReceive :
    (t.enterTask k task).onDataReceive = t.onDataReceive := by
  rw [enterTask_eq]
@[simp] theorem enterTask_written :
    (t.enterTask k task).trace.written = t.trace.written := by
  rw [enterTask_eq]
@[simp] theorem enterTask_copied : (t.enterTask k task).trace.copied = t.trace.copied := by
  rw [enterTask_eq]
@[simp] theorem enterTask_acceptedText :
    (t.enterTask k task).trace.acceptedText = t.trace.acceptedText := by
  rw [enterTask_eq]
@[simp] theorem enterTask_states : (t.enterTask k task).trace.states = t.trace.states := by
  rw [enterTask_eq]
@[simp] theorem enterTask_called : (t.enterTask k task).trace.called =
    t.trace.called ++ (invokes task).toList := by
  rw [enterTask_eq]

end EnterTask

theorem step_task_none {isn : BitVec 32} {t : Tcb} {k : ℕ} (calls : List AppCall)
    (hk : t.ioCtx[k]? = none) : step isn t (.task k calls) = .ok t := by
  simp only [step, hk]

theorem step_task_some {isn : BitVec 32} {t : Tcb} {k : ℕ} {task : Task} (calls : List AppCall)
    (hk : t.ioCtx[k]? = some task) :
    step isn t (.task k calls) = (t.enterTask k task).runTask calls task := by
  simp only [step, hk]

/-- **What a handler aborts with**: it can only miss the send queue or room in
it.  The assertions of the text step belong to arriving segments. -/
theorem task_error {isn : BitVec 32} {t : Tcb} {k : ℕ} {calls : List AppCall} {f : Fault}
    (h : step isn t (.task k calls) = .error f) : f = .nullSendQueue ∨ f = .sendQueueCapacity := by
  have hcalls : ∀ {u : Tcb}, u.appCalls calls = .error f →
      f = .nullSendQueue ∨ f = .sendQueueCapacity := by
    intro u hu
    obtain ⟨v, c, -, hv⟩ := EventSystem.run_error hu
    exact appCall_error_cases hv
  cases hk : t.ioCtx[k]? with
  | none => rw [step_task_none calls hk] at h; cases h
  | some task =>
      rw [step_task_some calls hk] at h
      cases task with
      | connectionEstablished => exact hcalls h
      | writeDone cb len => exact hcalls h
      | readDone cb len =>
          rcases EventSystem.bind_eq_error.mp h with h | ⟨u, -, h⟩
          · exact hcalls h
          · exact .inl (makeAndSendPkt_error.mp h).2
      | sendLoop =>
          change (t.enterTask k .sendLoop).sendLoop = .error f at h
          cases hpq : (t.enterTask k .sendLoop).send.pq with
          | none =>
              rcases EventSystem.bind_eq_error.mp h with h | ⟨pq, hsome, -⟩
              · exact .inl (sendPq_error.mp h).2
              · rw [sendPq_ok.mp hsome] at hpq
                cases hpq
          | some pq =>
              obtain ⟨u, hu⟩ := sendLoop_total hpq
              rw [hu] at h
              cases h

/-! ## The two rules

`P` is the invariant; `segOk` and `callOk` say what the environment may do. -/

section Rules

variable {P : Tcb → Prop} {isn : BitVec 32}
variable {segOk : Tcb → Segment → Prop} {callOk : Tcb → AppCall → Prop}

/-- What a call preserves, the body of a callback preserves. -/
theorem appCalls_preserves
    (hcall : ∀ t c t', P t → callOk t c → t.appCall c = .ok t' → P t')
    {t t' : Tcb} {calls : List AppCall} (hP : P t)
    (hok : EventSystem.Admitted appCall callOk t calls) (h : t.appCalls calls = .ok t') :
    P t' :=
  EventSystem.run_invariant hcall hP hok h

/-- **Induction over one event.**  What the four moves preserve, every event
preserves. -/
theorem step_induction
    (hprocess : ∀ t seg t', P t → segOk t seg → t.process isn seg = .ok t' → P t')
    (hcall : ∀ t c t', P t → callOk t c → t.appCall c = .ok t' → P t')
    (henter : ∀ t k task, P t → t.ioCtx[k]? = some task → P (t.enterTask k task))
    (hpacket : ∀ t pq, P t → t.send.pq = some pq → P (t.afterPacket pq)) :
    ∀ t e t', P t → EventOk segOk callOk t e → step isn t e = .ok t' → P t' := by
  intro t e t' hP hok h
  cases e with
  | process seg => exact hprocess t seg t' hP hok h
  | call c => exact hcall t c t' hP hok h
  | task k calls =>
      cases hk : t.ioCtx[k]? with
      | none => rw [step_task_none calls hk] at h; cases h; exact hP
      | some task =>
          rw [step_task_some calls hk] at h
          have hP' := henter t k task hP hk
          cases task with
          | connectionEstablished =>
              exact appCalls_preserves hcall hP' (hok _ hk (by simp)) h
          | writeDone cb len =>
              exact appCalls_preserves hcall hP' (hok _ hk (by simp)) h
          | readDone cb len =>
              obtain ⟨u, hu, h⟩ := bind_eq_ok.mp h
              obtain ⟨pq, hpq, rfl⟩ := makeAndSendPkt_ok.mp h
              exact hpacket u pq (appCalls_preserves hcall hP' (hok _ hk (by simp)) hu) hpq
          | sendLoop => exact sendLoop_preserves hpacket hP' h

/-- Calls inside a callback, none of them constrained. -/
theorem appCalls_induction (hcall : ∀ t c t', P t → t.appCall c = .ok t' → P t')
    {t t' : Tcb} {calls : List AppCall} (hP : P t) (h : t.appCalls calls = .ok t') : P t' := by
  have hok : EventSystem.Admitted appCall (fun _ _ => True) t calls :=
    EventSystem.admitted_of_forall (fun _ _ => trivial) t calls
  exact appCalls_preserves (fun t c t' hP _ => hcall t c t' hP) hP hok h

/-- A handler, with no constraint on the calls inside its callback. -/
theorem task_induction (hcall : ∀ t c t', P t → t.appCall c = .ok t' → P t')
    (henter : ∀ t k task, P t → t.ioCtx[k]? = some task → P (t.enterTask k task))
    (hpacket : ∀ t pq, P t → t.send.pq = some pq → P (t.afterPacket pq))
    {t t' : Tcb} {k : ℕ} {calls : List AppCall} (hP : P t)
    (h : step isn t (.task k calls) = .ok t') : P t' := by
  have hok : EventOk (fun _ _ => False) (fun _ _ => True) t (.task k calls) :=
    fun _ _ _ => EventSystem.admitted_of_forall (fun _ _ => trivial) _ _
  refine step_induction ?_ (fun t c t' hP _ => hcall t c t' hP) henter hpacket t _ t' hP hok h
  exact fun _ _ _ _ hfalse => hfalse.elim

/-- **Induction over a run.**  The rule most results about runs are proved
with. -/
theorem run_induction
    (hprocess : ∀ t seg t', P t → segOk t seg → t.process isn seg = .ok t' → P t')
    (hcall : ∀ t c t', P t → callOk t c → t.appCall c = .ok t' → P t')
    (henter : ∀ t k task, P t → t.ioCtx[k]? = some task → P (t.enterTask k task))
    (hpacket : ∀ t pq, P t → t.send.pq = some pq → P (t.afterPacket pq))
    {t t' : Tcb} {es : List Event} (hP : P t) (hok : RunOk isn segOk callOk t es)
    (h : run isn t es = .ok t') : P t' :=
  EventSystem.run_invariant (step_induction hprocess hcall henter hpacket) hP hok h

/-- **An event that does not abort.**  If the property also provides the send
queue and makes every admissible segment and call succeed, every admissible
event succeeds.

The queue is needed where a handler runs, since the send loop and the
completion of a read dereference it without a check. -/
theorem step_total
    (hprocess : ∀ t seg, P t → segOk t seg → ∃ t', t.process isn seg = .ok t' ∧ P t')
    (hcall : ∀ t c, P t → callOk t c → ∃ t', t.appCall c = .ok t' ∧ P t')
    (henter : ∀ t k task, P t → t.ioCtx[k]? = some task → P (t.enterTask k task))
    (hpacket : ∀ t pq, P t → t.send.pq = some pq → P (t.afterPacket pq))
    (hqueue : ∀ t (k : ℕ) task, P t → t.ioCtx[k]? = some task → ∃ pq, t.send.pq = some pq) :
    ∀ t e, P t → EventOk segOk callOk t e → ∃ t', step isn t e = .ok t' ∧ P t' := by
  intro t e hP hok
  cases e with
  | process seg => exact hprocess t seg hP hok
  | call c => exact hcall t c hP hok
  | task k calls =>
      cases hk : t.ioCtx[k]? with
      | none => exact ⟨t, step_task_none calls hk, hP⟩
      | some task =>
          rw [step_task_some calls hk]
          have hP' := henter t k task hP hk
          have hpq' : ∃ pq, (t.enterTask k task).send.pq = some pq := by
            simpa using hqueue t k task hP hk
          -- Inside a callback both the property and the queue are carried along.
          have hbody : task ≠ .sendLoop → ∃ u, (t.enterTask k task).appCalls calls = .ok u ∧
              P u ∧ ∃ pq, u.send.pq = some pq := by
            intro hne
            refine EventSystem.run_total ?_ ⟨hP', hpq'⟩ (hok _ hk hne)
            rintro u c ⟨hPu, hpqu⟩ hcok
            obtain ⟨v, hv, hPv⟩ := hcall u c hPu hcok
            exact ⟨v, hv, hPv, appCall_keeps_queue u c v hpqu hv⟩
          cases task with
          | connectionEstablished =>
              obtain ⟨u, hu, hPu, -⟩ := hbody (by simp)
              exact ⟨u, hu, hPu⟩
          | writeDone cb len =>
              obtain ⟨u, hu, hPu, -⟩ := hbody (by simp)
              exact ⟨u, hu, hPu⟩
          | readDone cb len =>
              obtain ⟨u, hu, hPu, pq, hpq⟩ := hbody (by simp)
              refine ⟨u.afterPacket pq, ?_, hpacket u pq hPu hpq⟩
              rw [runTask, hu, EventSystem.ok_bind]
              exact makeAndSendPkt_ok.mpr ⟨pq, hpq, rfl⟩
          | sendLoop =>
              obtain ⟨pq, hpq⟩ := hpq'
              obtain ⟨u, hu⟩ := sendLoop_total hpq
              exact ⟨u, hu, sendLoop_preserves hpacket hP' hu⟩

end Rules

end Tcb

end Mstack
