import Mstack.Tcp.Guard
import Mstack.Tcp.LifeCycle

/-!
# Overrunning the send queue

`send_.pq` is as large as the window of the peer's SYN: the handlers of LISTEN
and SYN-SENT create it so, and no later step changes its capacity or SND.WND.
`async_write` puts the whole buffer into it, under an assertion, and reports
the whole buffer as written.  The application cannot ask how much room there
is, so a peer with a small window can stop a program that writes more.

### Main result

`send_queue_overrun_iff`: the assertion holds throughout a run exactly if no
buffer is longer than what the window has left above the bytes in the queue.
Moreover the queue is always as large as the window of a SYN that the peer has
sent, and every write is reported once, with the length of its buffer.

### Outline

* `QueueKept` — the size of the queue and SND.WND stay, by every step but the
  one that creates the queue (`process_queue`).
* `step_overrun_iff` — the assertion for one event.  Calls inside a callback
  come one after another, each with the queue the one before has left, so the
  condition is one along a run of calls.
* `step_reported` — what is reported.  Handlers run in any order, so it is
  stated up to a permutation.
-/

namespace Mstack

namespace Tcb

open EventSystem (bind_eq_ok bind_eq_error Admitted)

/-! ## The size of the queue

Created once, never changed. -/

/-- The capacity of the send queue, once it is there. -/
def queueCapacity (t : Tcb) : Option ℕ := t.send.pq.map CircularBuffer.capacity

/-- Neither the queue's capacity nor SND.WND changes. -/
structure QueueKept (t t' : Tcb) : Prop where
  window : t'.send.state.window = t.send.state.window
  capacity : t'.queueCapacity = t.queueCapacity

theorem QueueKept.refl (t : Tcb) : QueueKept t t := ⟨rfl, rfl⟩

theorem QueueKept.trans {t u v : Tcb} (h : QueueKept t u) (h' : QueueKept u v) :
    QueueKept t v :=
  ⟨h'.window.trans h.window, h'.capacity.trans h.capacity⟩

theorem QueueKept.of_send {t t' : Tcb} (h : t'.send = t.send) : QueueKept t t' := by
  refine ⟨by rw [h], ?_⟩
  rw [queueCapacity, h, queueCapacity]

/-- Emptying the queue from the front leaves its capacity. -/
theorem queueKept_ackData {t : Tcb} {pq : CircularBuffer Byte} (hpq : t.send.pq = some pq)
    (ackNo : BitVec 32) : QueueKept t (t.ackData pq ackNo) := by
  refine ⟨rfl, ?_⟩
  rw [queueCapacity, queueCapacity, hpq]
  rfl

theorem AckOutcome.queueKept {t : Tcb} {seg : Segment} {flow : Flow} (h : AckOutcome t seg flow) :
    QueueKept t flow.block := by
  cases h with
  | data hACK hstate pq hpq hhi =>
      obtain ⟨n, hn⟩ := (t.ackData pq seg.tcph.ackNo).ackNextState_eq
      rw [hn]
      exact (queueKept_ackData hpq _).trans (.of_send rfl)
  | unsent hACK hstate pq pq' hpq hhi hpq' =>
      exact (queueKept_ackData hpq _).trans ⟨rfl, rfl⟩
  | _ => exact ⟨rfl, rfl⟩

/-- **What a segment does to the queue**: a SYN that is taken creates it, with
the window of the SYN, and nothing else touches its size. -/
theorem process_queue {isn : BitVec 32} {t t' : Tcb} {seg : Segment}
    (h : t.process isn seg = .ok t') :
    QueueKept t t' ∨ (seg.tcph.SYN = true ∧ t'.send.state.window = seg.tcph.window ∧
      t'.queueCapacity = some seg.tcph.window.toNat) := by
  cases process_cases h with
  | unchanged hno => exact .inl (.refl t)
  | passiveOpen hstate hRST hACK hSYN opts hopts => exact .inr ⟨hSYN, rfl, rfl⟩
  | activeOpen hstate hSYN hACK hlo hhi opts hopts => exact .inr ⟨hSYN, rfl, rfl⟩
  | returned hsync hreach hack => exact .inl hack.queueKept
  | continued hsync hreach hack htext hfin =>
      refine .inl ((hack.queueKept.trans (.of_send htext.send_eq)).trans ?_)
      cases hfin <;> exact ⟨rfl, rfl⟩

theorem appCall_queueKept {t t' : Tcb} {c : AppCall} (h : t.appCall c = .ok t') :
    QueueKept t t' := by
  cases appCall_cases h with
  | waits size cb hempty => exact .of_send rfl
  | reads size cb hdata => exact .of_send rfl
  | writes buf cb pq hpq hfit =>
      refine ⟨rfl, ?_⟩
      rw [queueCapacity, queueCapacity, hpq]
      rfl

theorem task_queueKept {isn : BitVec 32} {t t' : Tcb} {k : ℕ} {calls : List AppCall}
    (h : step isn t (.task k calls) = .ok t') : QueueKept t t' := by
  refine task_induction (P := QueueKept t) ?_ ?_ ?_ (.refl t) h
  · exact fun u c u' hu hcall => hu.trans (appCall_queueKept hcall)
  · exact fun u j task hu _ => hu.trans (.of_send (enterTask_send u j task))
  · exact fun u pq hu _ => hu.trans ⟨rfl, rfl⟩

/-- A SYN with this window has been processed. -/
def Announced (past : List Event) (window : BitVec 16) : Prop :=
  ∃ seg, .process seg ∈ past ∧ seg.tcph.SYN = true ∧ seg.tcph.window = window

/-- The queue is as large as SND.WND. -/
def PeerSized (t : Tcb) : Prop := ∀ n, t.queueCapacity = some n → n = t.send.state.window.toNat

theorem PeerSized.of_kept {t t' : Tcb} (h : PeerSized t) (hkept : QueueKept t t') :
    PeerSized t' := by
  intro n hn
  rw [hkept.window]
  exact h n (hkept.capacity ▸ hn)

theorem step_queue {isn : BitVec 32} {t t' : Tcb} {e : Event} (h : step isn t e = .ok t') :
    QueueKept t t' ∨ ∃ seg, e = .process seg ∧ seg.tcph.SYN = true ∧
      t'.send.state.window = seg.tcph.window ∧ t'.queueCapacity = some seg.tcph.window.toNat := by
  cases e with
  | process seg => exact (process_queue h).imp_right fun hopen => ⟨seg, rfl, hopen⟩
  | call c => exact .inl (appCall_queueKept h)
  | task k calls => exact .inl (task_queueKept h)

theorem step_peerSized {isn : BitVec 32} {t t' : Tcb} {e : Event} (hsized : PeerSized t)
    (h : step isn t e = .ok t') : PeerSized t' := by
  rcases step_queue h with hkept | ⟨seg, -, -, hwindow, hcapacity⟩
  · exact hsized.of_kept hkept
  · intro n hn
    rw [hcapacity] at hn
    rw [hwindow, ← Option.some.inj hn]

/-- A new block has no queue. -/
theorem Opened.queueCapacity {isn : BitVec 32} {t : Tcb} (h : Opened isn t) :
    t.queueCapacity = none := by
  cases h with
  | passive remoteEp localEp junkSend junkRcv => rfl
  | active remoteEp localEp junkSend junkRcv h =>
      rw [startConnecting_eq] at h
      cases h
      rfl

theorem Opened.peerSized {isn : BitVec 32} {t : Tcb} (h : Opened isn t) : PeerSized t := by
  intro n hn
  rw [h.queueCapacity] at hn
  cases hn

/-! ## The assertion

Calls, calls inside callbacks, events. -/

/-- **The buffer fits the peer's window**: it is no longer than what SND.WND
leaves above the bytes in the queue. -/
def FitsWindow (t : Tcb) : AppCall → Prop
  | .read _ _ => True
  | .write buf _ => ∀ pq, t.send.pq = some pq →
      buf.length ≤ t.send.state.window.toNat - pq.size

section Overrun

variable {isn : BitVec 32} {t : Tcb}

theorem appCall_overrun_iff {c : AppCall} (hpq : ∃ pq, t.send.pq = some pq)
    (hsized : PeerSized t) : t.appCall c ≠ .error .sendQueueCapacity ↔ FitsWindow t c := by
  obtain ⟨pq, hpq⟩ := hpq
  have hcapacity := hsized pq.capacity (by rw [queueCapacity, hpq]; rfl)
  have hsize := pq.size_le
  rw [ne_eq, appCall_error_iff]
  cases c with
  | read size cb =>
      refine iff_of_true ?_ trivial
      rintro ⟨buf, cb', hc, -⟩
      cases hc
  | write buf cb =>
      simp only [FitsWindow, hpq, Option.some.injEq, forall_eq']
      constructor
      · intro hno
        by_contra hlong
        exact hno ⟨buf, cb, rfl, .inr ⟨pq, rfl, by omega, trivial⟩⟩
      · rintro hfits ⟨buf', cb', hc, ⟨hnone, -⟩ | ⟨pq', hpq', hlong, -⟩⟩
        · cases hnone
        · cases hc
          cases hpq'
          omega

/-- Inside a callback. -/
theorem appCalls_overrun_iff {calls : List AppCall} (hpq : ∃ pq, t.send.pq = some pq)
    (hsized : PeerSized t) :
    t.appCalls calls ≠ .error .sendQueueCapacity ↔ Admitted appCall FitsWindow t calls := by
  have hadm : Admitted appCall (fun _ _ => True) t calls :=
    EventSystem.admitted_of_forall (fun _ _ => trivial) t calls
  refine EventSystem.run_avoids_iff (P := fun u => (∃ pq, u.send.pq = some pq) ∧ PeerSized u)
    ?_ ?_ ⟨hpq, hsized⟩ hadm
  · rintro u c u' ⟨hpqu, hu⟩ - hcall
    exact ⟨appCall_keeps_queue u c u' hpqu hcall, hu.of_kept (appCall_queueKept hcall)⟩
  · rintro u c ⟨hpqu, hu⟩ -
    exact appCall_overrun_iff hpqu hu

/-- A handler that invokes a callback aborts for want of room only inside it. -/
theorem runTask_overrun_iff {calls : List AppCall} {task : Task} (htask : task ≠ .sendLoop) :
    t.runTask calls task = .error .sendQueueCapacity ↔
      t.appCalls calls = .error .sendQueueCapacity := by
  cases task with
  | connectionEstablished => exact Iff.rfl
  | writeDone cb len => exact Iff.rfl
  | sendLoop => exact (htask rfl).elim
  | readDone cb len =>
      refine bind_eq_error.trans ⟨?_, .inl⟩
      rintro (hcalls | ⟨u, -, hsend⟩)
      · exact hcalls
      · cases (makeAndSendPkt_error.mp hsend).2

/-- **The assertion, for one event.**  Neither segments nor the send loop come
near it.  The queue is there because nobody writes before the connection
callback (`Life`). -/
theorem step_overrun_iff {e : Event} (hlife : Life isn t) (hsized : PeerSized t)
    (hok : LifeEventOk t e) :
    step isn t e ≠ .error .sendQueueCapacity ↔ EventOk (fun _ _ => True) FitsWindow t e := by
  cases e with
  | process seg =>
      refine iff_of_true (fun herror => ?_) trivial
      have hpq : t.state.synchronized = true → ∃ pq, t.send.pq = some pq :=
        fun hsync => hlife.toControlled.pq_of_synchronized hsync
      rcases process_error_cases hpq herror with hf | hf | hf | hf <;> cases hf
  | call c =>
      have hrank := hlife.rank_of_connected hok
      exact appCall_overrun_iff (hlife.pq_of_rank (by omega)) hsized
  | task k calls =>
      cases hk : t.ioCtx[k]? with
      | none =>
          rw [step_task_none calls hk]
          exact iff_of_true nofun fun task htask => by rw [hk] at htask; cases htask
      | some task =>
          have hrank := hlife.rank_of_posted hk
          have hpq : ∃ pq, (t.enterTask k task).send.pq = some pq := by
            rw [enterTask_send]
            exact hlife.pq_of_rank (by omega)
          have hsized' : PeerSized (t.enterTask k task) :=
            hsized.of_kept (.of_send (enterTask_send t k task))
          rw [step_task_some calls hk]
          by_cases htask : task = .sendLoop
          · -- The send loop only takes bytes out of the queue.
            subst htask
            obtain ⟨pq, hpq⟩ := hpq
            obtain ⟨u, hu⟩ := sendLoop_total hpq
            refine iff_of_true ?_ fun task' hk' hne => ?_
            · rw [runTask, hu]
              nofun
            · rw [hk] at hk'
              exact (hne (Option.some.inj hk').symm).elim
          · rw [ne_eq, runTask_overrun_iff htask]
            refine (appCalls_overrun_iff hpq hsized').trans ⟨fun h task' hk' _ => ?_, fun h => ?_⟩
            · rw [hk] at hk'
              rwa [← Option.some.inj hk']
            · exact h task hk htask

end Overrun

/-! ## What is reported

Every write posts a completion with the length of its buffer, at once. -/

/-- The writes among a list of calls, with their callbacks. -/
def writesAmong (calls : List AppCall) : List (CallbackId × List Byte) :=
  calls.filterMap fun
    | .read _ _ => none
    | .write buf cb => some (cb, buf)

/-- The writes an event makes. -/
def wroteBy (t : Tcb) : Event → List (CallbackId × List Byte)
  | .process _ => []
  | .call c => writesAmong [c]
  | .task k calls =>
      match t.ioCtx[k]? with
      | none | some .sendLoop => []
      | some _ => writesAmong calls

/-- The writes a run makes. -/
def wrote (isn : BitVec 32) : Tcb → List Event → List (CallbackId × List Byte)
  | _, [] => []
  | t, e :: es =>
      t.wroteBy e ++
        match step isn t e with
        | .ok t' => wrote isn t' es
        | .error _ => []

/-- The completions of writes among handlers. -/
def writeDones (tasks : List Task) : List (CallbackId × ℕ) :=
  tasks.filterMap fun
    | .writeDone cb len => some (cb, len)
    | _ => none

/-- The byte counts that write callbacks have been given. -/
def writesCalled (t : Tcb) : List (CallbackId × ℕ) :=
  t.trace.called.filterMap fun
    | .write cb nbytes => some (cb, nbytes)
    | _ => none

/-- The byte counts reported, and those about to be. -/
def reported (t : Tcb) : List (CallbackId × ℕ) := t.writesCalled ++ writeDones t.ioCtx

/-- What is to be reported for these writes: all of each buffer. -/
def inFull (writes : List (CallbackId × List Byte)) : List (CallbackId × ℕ) :=
  writes.map fun w => (w.1, w.2.length)

section Reported

variable {isn : BitVec 32} {t t' : Tcb}

theorem wrote_concat {s : Tcb} {es : List Event} (e : Event) (hrun : run isn t es = .ok s) :
    wrote isn t (es ++ [e]) = wrote isn t es ++ s.wroteBy e :=
  EventSystem.gathered_concat (fun _ => rfl)
    (fun s e es => by rw [wrote]; cases step isn s e <;> rfl) e hrun

@[simp] theorem writeDones_append (tasks tasks' : List Task) :
    writeDones (tasks ++ tasks') = writeDones tasks ++ writeDones tasks' := by
  simp [writeDones]

theorem reported_congr (hcalled : t'.trace.called = t.trace.called)
    (hdones : writeDones t'.ioCtx = writeDones t.ioCtx) : t'.reported = t.reported := by
  rw [reported, writesCalled, hcalled, hdones]
  rfl

/-- A segment reports nothing about writes. -/
theorem process_reported {seg : Segment} (h : t.process isn seg = .ok t') :
    t'.reported = t.reported := by
  have hack : ∀ {flow : Flow}, AckOutcome t seg flow →
      writeDones flow.block.ioCtx = writeDones t.ioCtx := by
    intro flow hack
    cases hack with
    | accepted hACK hstate hlo hhi => exact (writeDones_append _ _).trans (List.append_nil _)
    | data hACK hstate pq hpq hhi =>
        obtain ⟨n, hn⟩ := (t.ackData pq seg.tcph.ackNo).ackNextState_eq
        rw [hn]
        rfl
    | _ => rfl
  refine reported_congr (process_called h) ?_
  cases process_cases h with
  | unchanged hno => rfl
  | passiveOpen hstate hRST hACK hSYN opts hopts => rfl
  | activeOpen hstate hSYN hACK hlo hhi opts hopts =>
      exact (writeDones_append _ _).trans (List.append_nil _)
  | returned hsync hreach hout => exact hack hout
  | continued hsync hreach hout htext hfin =>
      refine Eq.trans ?_ (hack hout)
      have hfinished : ∀ {u v : Tcb}, FinOutcome u seg v → v.ioCtx = u.ioCtx := by
        intro u v hv
        cases hv <;> rfl
      rw [hfinished hfin]
      cases htext with
      | ignored hno => rfl
      | delivered hyes reader readers hreaders hempty =>
          exact (writeDones_append _ _).trans (List.append_nil _)
      | appended hyes hreaders hfit => rfl

/-- **A call reports all of the buffer it has put into the queue**, before any
of it has been sent. -/
theorem appCall_reported {c : AppCall} (h : t.appCall c = .ok t') :
    t'.reported = t.reported ++ inFull (writesAmong [c]) := by
  cases appCall_cases h with
  | waits size cb hempty => exact (List.append_nil _).symm
  | reads size cb hdata =>
      have hdones : writeDones (t.afterRead size cb).ioCtx = writeDones t.ioCtx := by
        simp [afterRead, writeDones]
      have hsame : (t.afterRead size cb).reported = t.reported := reported_congr rfl hdones
      rw [hsame]
      exact (List.append_nil _).symm
  | writes buf cb pq hpq hfit =>
      simp [reported, writesCalled, afterWrite, writeDones, writesAmong, inFull]

theorem appCalls_reported {calls : List AppCall} (h : t.appCalls calls = .ok t') :
    t'.reported = t.reported ++ inFull (writesAmong calls) := by
  refine EventSystem.run_history
    (P := fun past u => u.reported = t.reported ++ inFull (writesAmong past)) ?_
    (List.append_nil _).symm (EventSystem.admitted_of_forall (fun _ _ => trivial) t calls) h
  intro past u c u' hu _ hcall
  rw [appCall_reported hcall, hu, List.append_assoc]
  simp [inFull, writesAmong]

/-- A handler that leaves the queue takes its report along. -/
theorem reported_enterTask {k : ℕ} {task : Task} (hk : t.ioCtx[k]? = some task) :
    (t.enterTask k task).reported.Perm t.reported := by
  obtain ⟨hlt, hget⟩ := List.getElem?_eq_some_iff.mp hk
  have hperm := (List.getElem_cons_eraseIdx_perm hlt).filterMap fun task' => match task' with
    | .writeDone cb len => some (cb, len)
    | _ => none
  rw [hget] at hperm
  rw [reported, reported, writesCalled, enterTask_called, enterTask_ioCtx, List.filterMap_append,
    List.append_assoc]
  refine List.Perm.append_left _ (List.Perm.trans ?_ hperm)
  cases task <;> simp [invokes, writeDones]

/-- **One event.**  What was reported stays, and what the event writes is
added, in full.  A handler that runs moves its own report from *posted* to
*called*. -/
theorem step_reported {e : Event} (h : step isn t e = .ok t') :
    t'.reported.Perm (t.reported ++ inFull (t.wroteBy e)) := by
  cases e with
  | process seg =>
      rw [process_reported h]
      exact .of_eq (List.append_nil _).symm
  | call c => exact .of_eq (appCall_reported h)
  | task k calls =>
      cases hk : t.ioCtx[k]? with
      | none =>
          rw [step_task_none calls hk] at h
          cases h
          exact .of_eq (by simp [wroteBy, hk, inFull])
      | some task =>
          rw [step_task_some calls hk] at h
          have henter := reported_enterTask hk
          have hcalls : ∀ u, (t.enterTask k task).appCalls calls = .ok u →
              u.reported.Perm (t.reported ++ inFull (writesAmong calls)) := by
            intro u hu
            rw [appCalls_reported hu]
            exact henter.append_right _
          cases task with
          | connectionEstablished => simpa [wroteBy, hk] using hcalls t' h
          | writeDone cb len => simpa [wroteBy, hk] using hcalls t' h
          | readDone cb len =>
              obtain ⟨u, hu, hsend⟩ := bind_eq_ok.mp h
              obtain ⟨pq, -, rfl⟩ := makeAndSendPkt_ok.mp hsend
              have hsame : (u.afterPacket pq).reported = u.reported := reported_congr rfl rfl
              rw [hsame]
              simpa [wroteBy, hk] using hcalls u hu
          | sendLoop =>
              have hloop := sendLoop_preserves
                (P := fun u => u.reported.Perm t.reported) (fun u pq hu _ => hu) henter h
              simpa [wroteBy, hk, inFull] using hloop

end Reported

theorem Opened.reported {isn : BitVec 32} {t : Tcb} (h : Opened isn t) : t.reported = [] := by
  cases h with
  | passive remoteEp localEp junkSend junkRcv => rfl
  | active remoteEp localEp junkSend junkRcv h =>
      rw [startConnecting_eq] at h
      cases h
      rfl

/-- **When the application does not overrun the send queue.**  For every run of
a block over any segments and handlers, with writes after the connection
callback: the assertion in `enqueue_app_data` holds throughout exactly if every
buffer fits what the peer's window leaves above the bytes in the queue.  The
queue is as large as the window of a SYN the peer has sent; a write that goes
through adds its whole buffer; and every write is reported once, with the
length of its buffer. -/
theorem send_queue_overrun_iff {isn : BitVec 32} {t₀ : Tcb} {es : List Event}
    (hopen : Opened isn t₀) (hok : Admitted (step isn) LifeEventOk t₀ es) :
    (run isn t₀ es ≠ .error .sendQueueCapacity ↔
      Admitted (step isn) (EventOk (fun _ _ => True) FitsWindow) t₀ es) ∧
    ∀ t, run isn t₀ es = .ok t →
      (∀ pq, t.send.pq = some pq → pq.capacity = t.send.state.window.toNat ∧
        Announced es t.send.state.window) ∧
      (∀ buf cb t', t.appCall (.write buf cb) = .ok t' → ∃ pq pq', t.send.pq = some pq ∧
        t'.send.pq = some pq' ∧ pq'.data = pq.data ++ buf ∧
        t'.ioCtx = t.ioCtx ++ [.sendLoop, .writeDone cb buf.length]) ∧
      t.reported.Perm (inFull (wrote isn t₀ es)) := by
  refine ⟨?_, fun t hrun => ⟨?_, fun buf cb t' hcall => ?_, ?_⟩⟩
  · -- The run goes wrong at its first write that does not fit.
    refine EventSystem.run_avoids_iff (P := fun u => Life isn u ∧ PeerSized u) ?_ ?_
      ⟨hopen.life, hopen.peerSized⟩ hok
    · rintro u e u' ⟨hlife, hsized⟩ hoke hstep
      exact ⟨(step_life hlife hoke hstep).1, step_peerSized hsized hstep⟩
    · rintro u e ⟨hlife, hsized⟩ hoke
      exact step_overrun_iff hlife hsized hoke
  · -- The queue and SND.WND come from one SYN, and stay.
    have hpeer := EventSystem.run_history
      (P := fun past u => ∀ n, u.queueCapacity = some n →
        n = u.send.state.window.toNat ∧ Announced past u.send.state.window) ?_
      (fun n hn => by rw [hopen.queueCapacity] at hn; cases hn) hok hrun
    · intro pq hpq
      exact hpeer pq.capacity (by rw [queueCapacity, hpq]; rfl)
    · intro past u e u' hu _ hstep n hn
      rcases step_queue hstep with hkept | ⟨seg, rfl, hSYN, hwindow, hcapacity⟩
      · obtain ⟨hn', seg, hmem, hseg⟩ := hu n (hkept.capacity ▸ hn)
        rw [hkept.window]
        exact ⟨hn', seg, List.mem_append_left _ hmem, hseg⟩
      · rw [hcapacity] at hn
        rw [hwindow, ← Option.some.inj hn]
        exact ⟨rfl, seg, by simp, hSYN, rfl⟩
  · obtain ⟨pq, hpq, hfit, rfl⟩ := asyncWrite_ok.mp hcall
    exact ⟨pq, _, hpq, rfl, pq.insertEnd_data hfit, by simp [afterWrite]⟩
  · -- Each write is counted when it is made, by its report.
    refine EventSystem.run_history_reached
      (P := fun past u => u.reported.Perm (inFull (wrote isn t₀ past))) ?_
      (.of_eq hopen.reported) hok hrun
    intro past u e u' hpast hu _ hstep
    have hfull : inFull (wrote isn t₀ (past ++ [e]))
        = inFull (wrote isn t₀ past) ++ inFull (u.wroteBy e) := by
      rw [wrote_concat e hpast]
      exact List.map_append
    rw [hfull]
    exact (step_reported hstep).trans (hu.append_right _)

/-- A peer with a window of two bytes; the application writes `buf` when it is
connected. -/
def smallWindow (buf : List Byte) : List Event :=
  [.process ⟨{ TcpHeader.bare with SYN := true, seqNo := 100, window := 2 }, [], []⟩,
    .process ⟨{ TcpHeader.bare with ACK := true, seqNo := 101, ackNo := 8 }, [], []⟩,
    .task 0 [.write buf 1]]

theorem admitted_smallWindow (buf : List Byte) :
    Admitted (step 7) LifeEventOk listening (smallWindow buf) := by
  refine .cons trivial rfl ?_
  refine .cons trivial rfl ?_
  refine .single fun task hk _ => ?_
  cases hk
  exact .single (List.mem_singleton.mpr rfl)

/-- Three bytes: the assertion fails. -/
theorem three_bytes_overrun : Opened 7 listening ∧
    Admitted (step 7) LifeEventOk listening (smallWindow [1, 2, 3]) ∧
    run 7 listening (smallWindow [1, 2, 3]) = .error .sendQueueCapacity :=
  ⟨opened_listening 7, admitted_smallWindow _, rfl⟩

/-- Two bytes: they fit, and are reported. -/
theorem two_bytes_fit : ∃ t, run 7 listening (smallWindow [1, 2]) = .ok t ∧
    Admitted (step 7) (EventOk (fun _ _ => True) FitsWindow) listening (smallWindow [1, 2]) ∧
    t.reported.Perm [(1, 2)] := by
  have hrun : ∃ t, run 7 listening (smallWindow [1, 2]) = .ok t := ⟨_, rfl⟩
  obtain ⟨t, ht⟩ := hrun
  obtain ⟨hiff, hstate⟩ := send_queue_overrun_iff (opened_listening 7) (admitted_smallWindow [1, 2])
  exact ⟨t, ht, hiff.mp (by rw [ht]; nofun), (hstate t ht).2.2⟩

end Tcb

end Mstack
