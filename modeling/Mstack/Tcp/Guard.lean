import Mstack.Tcp.Outcome

/-!
# From arrival to the guard

Which segments get their text past the guard of the text step, said about the
block *before* the segment is processed.

In the source the question is answered in three places of `process`: the window
test and the flag tests in front of the ACK step, the ACK step itself, and the
comparison at the head of the text step.  The ACK step may change the state on
the way (from SYN-RECEIVED to ESTABLISHED), so what the text step sees is not
the block that the segment arrived at.  The predicates of this module are about
that block all the same:

* `reachesAckStep` — the segment passes the window test and the flags;
* `ReachesGuard` — the ACK step does not turn it away, and the state behind
  that step, `textState`, is one in which text is taken;
* `TakesText` — and the guard holds.

### Main results

* `process_inbox` — what an arriving segment does to the receive side.  It
  depends on little: the queue, the waiting readers and their completions.
  `Inbox` is that part of a block, with `Inbox.deliver` and `Inbox.append` as
  its two operations.
* `process_text_error` — which segments trip one of the two assertions of the
  text step, exactly.

### What is load-bearing

**The ACK step touches neither RCV.NXT nor the receive queue.**  Only because
of that can the guard be evaluated before it runs
(`AckOutcome.acceptsText_iff`), and only because of that is a condition on the
block and the segment enough for the results of `Tcp.Readers` and
`Tcp.Overrun`, which say when a run stops.
-/

namespace Mstack

namespace Tcb

open EventSystem (bind_eq_ok bind_eq_error)

/-- The range test of SYN-RECEIVED: SND.UNA =< SEG.ACK =< SND.NXT, as unsigned
numbers. -/
def AckInRange (t : Tcb) (seg : Segment) : Prop :=
  t.send.state.seqNrUnack ≤ seg.tcph.ackNo ∧ seg.tcph.ackNo ≤ t.send.state.seqNrNext

instance (t : Tcb) (seg : Segment) : Decidable (t.AckInRange seg) :=
  inferInstanceAs (Decidable (_ ∧ _))

/-- The segment acknowledges something not yet sent.  The ACK step answers it
with a packet and drops it. -/
def AckUnsent (t : Tcb) (seg : Segment) : Prop := seg.tcph.ackNo > t.send.state.seqNrNext

instance (t : Tcb) (seg : Segment) : Decidable (t.AckUnsent seg) :=
  inferInstanceAs (Decidable (_ > _))

/-- The state in which the text step runs: that of the block, unless the
segment completes a passive open. -/
def textState (t : Tcb) (seg : Segment) : TcpState :=
  if seg.tcph.ACK then
    match t.state with
    | .synReceived => .established
    | .timeWait => t.nextState
    | s => s
  else t.state

/-- A segment with text gets to the guard of the text step.  `range` and
`unsent` are the two ways in which the ACK step turns a segment away. -/
structure ReachesGuard (t : Tcb) (seg : Segment) : Prop where
  text : 0 < seg.text.length
  state : (t.textState seg).takesText = true
  range : seg.tcph.ACK = true → t.state = .synReceived → t.AckInRange seg
  unsent : seg.tcph.ACK = true → t.state.acksData = true → ¬ t.AckUnsent seg

section Guard

variable {t : Tcb} {seg : Segment}

/-- The ways out of `process` behind the window test: the ACK step returns, or
the three steps follow each other. -/
theorem process_reached {isn : BitVec 32} {t' : Tcb} (hreach : t.reachesAckStep seg = true)
    (h : t.process isn seg = .ok t') :
    AckOutcome t seg (.ret t') ∨
      ∃ u v, AckOutcome t seg (.next u) ∧ TextOutcome u seg v ∧ FinOutcome v seg t' := by
  have hsync := reachesAckStep_synchronized hreach
  cases process_cases h with
  | unchanged hno => rw [hreach] at hno; cases hno
  | passiveOpen hs => rw [hs] at hsync; cases hsync
  | activeOpen hs => rw [hs] at hsync; cases hsync
  | returned _ _ hack => exact .inl hack
  | continued _ _ hack htext hfin => exact .inr ⟨_, _, hack, htext, hfin⟩

theorem textState_of_acksData (hdata : t.state.acksData = true) : t.textState seg = t.state := by
  unfold textState
  cases hs : t.state <;> rw [hs] at hdata <;> first | exact ite_self _ | cases hdata

/-- **The state in which the text step runs.**  What the ACK step makes of the
state is a function of the block and the segment. -/
theorem AckOutcome.textState_eq {t' : Tcb} (hack : AckOutcome t seg (.next t'))
    (hreach : t.reachesAckStep seg = true) : t'.state = t.textState seg := by
  cases hack with
  | absent hACK => rw [textState, hACK]; rfl
  | accepted hACK hs hlo hhi => rw [textState, if_pos hACK, hs]; rfl
  | data hACK hdata pq hpq hhi =>
      obtain ⟨n, hn⟩ := (t.ackData pq seg.tcph.ackNo).ackNextState_eq
      rw [hn, textState_of_acksData hdata]
      rfl
  | timeWait hACK hs pq hpq => rw [textState, if_pos hACK, hs]; rfl
  | unsynchronized _ hs => rw [reachesAckStep_synchronized hreach] at hs; cases hs

theorem AckOutcome.acceptsText_iff {t' : Tcb} (hack : AckOutcome t seg (.next t'))
    (hreach : t.reachesAckStep seg = true) :
    t'.acceptsText seg = (decide (0 < seg.text.length) && (t.textState seg).takesText &&
      t.textGuard seg.tcph) := by
  have hrcv : t'.rcv = t.rcv := hack.frame.1
  rw [acceptsText, hack.textState_eq hreach, textGuard, textGuard, hrcv]

/-- Text that goes on behind the ACK step, in a state that takes text, reaches
the guard. -/
theorem AckOutcome.reachesGuard {t' : Tcb} (hack : AckOutcome t seg (.next t'))
    (htext : 0 < seg.text.length) (htakes : (t.textState seg).takesText = true) :
    t.ReachesGuard seg := by
  refine ⟨htext, htakes, fun hACK hs => ?_, fun hACK hdata => ?_⟩
  · cases hack with
    | absent hno => rw [hACK] at hno; cases hno
    | accepted _ _ hlo hhi => exact ⟨hlo, hhi⟩
    | data _ hdata => rw [hs] at hdata; cases hdata
    | timeWait _ hs' => rw [hs] at hs'; cases hs'
    | unsynchronized _ hs' => rw [hs] at hs'; cases hs'
  · cases hack with
    | absent hno => rw [hACK] at hno; cases hno
    | accepted _ hs => rw [hs] at hdata; cases hdata
    | data _ _ _ _ hhi => exact hhi
    | timeWait _ hs => rw [hs] at hdata; cases hdata
    | unsynchronized _ hs => rw [TcpState.synchronized_of_acksData hdata] at hs; cases hs

/-- And conversely: the ACK step does not end the procedure. -/
theorem ReachesGuard.not_ret {t' : Tcb} (h : t.ReachesGuard seg) :
    ¬ AckOutcome t seg (.ret t') := by
  intro hack
  cases hack with
  | refused hACK hs hrange => exact hrange (h.range hACK hs)
  | unsent hACK hdata _ _ _ hhi _ => exact h.unsent hACK hdata hhi
  | lastAck hACK hs =>
      have hstate := h.state
      rw [textState, if_pos hACK, hs] at hstate
      cases hstate

theorem ReachesGuard.next {pq : CircularBuffer Byte} (h : t.ReachesGuard seg)
    (hpq : t.send.pq = some pq) : ∃ t', t.ackStep seg = .ok (.next t') := by
  obtain ⟨flow, hflow⟩ := ackStep_total seg hpq
  cases flow with
  | next t' => exact ⟨t', hflow⟩
  | ret t' => exact (h.not_ret (ackStep_cases hflow)).elim

/-- The FIN step touches neither readers nor queue, and it never takes a packet
back. -/
theorem FinOutcome.frame {t' : Tcb} (h : FinOutcome t seg t') :
    t'.onDataReceive = t.onDataReceive ∧ t'.rcv.pq = t.rcv.pq ∧
      t.mngr.length ≤ t'.mngr.length := by
  cases h with
  | ignored => exact ⟨rfl, rfl, le_rfl⟩
  | closed _ _ pq _ =>
      refine ⟨rfl, rfl, ?_⟩
      simp [afterFin, afterPacket, setNextState, advanceRcvNext]
  | finWait => exact ⟨rfl, rfl, le_rfl⟩

/-! ## Text that is taken

The three conditions together. -/

/-- **The text of the segment is taken**: the segment passes the window test,
the ACK step lets it go on, and the guard of the text step holds.  A condition
on the block before the segment, although the guard is evaluated behind the ACK
step. -/
structure TakesText (t : Tcb) (seg : Segment) : Prop where
  reach : t.reachesAckStep seg = true
  guarded : t.ReachesGuard seg
  guard : t.textGuard seg.tcph = true

theorem AckOutcome.takesText_iff {t' : Tcb} (hack : AckOutcome t seg (.next t'))
    (hreach : t.reachesAckStep seg = true) :
    t'.acceptsText seg = true ↔ t.TakesText seg := by
  rw [hack.acceptsText_iff hreach, Bool.and_eq_true, Bool.and_eq_true, decide_eq_true_eq]
  constructor
  · rintro ⟨⟨htext, hstate⟩, hguard⟩
    exact ⟨hreach, hack.reachesGuard htext hstate, hguard⟩
  · intro h
    exact ⟨⟨h.guarded.text, h.guarded.state⟩, h.guard⟩

end Guard

/-! ## The inbox

The part of a block that text and reads have to do with, and its two
operations. -/

/-- The read completions among a list of handlers, with their byte counts. -/
def readDones (tasks : List Task) : List (CallbackId × ℕ) :=
  tasks.filterMap fun
    | .readDone cb len => some (cb, len)
    | _ => none

@[simp] theorem readDones_append (tasks tasks' : List Task) :
    readDones (tasks ++ tasks') = readDones tasks ++ readDones tasks' :=
  List.filterMap_append

@[simp] theorem readDones_singleton (cb : CallbackId) (len : ℕ) :
    readDones [.readDone cb len] = [(cb, len)] := rfl

/-- What text and reads have to do with: the queue, the readers that wait, what
readers have got, the texts taken, and the completions that have not run. -/
@[ext] structure Inbox where
  pq : CircularBuffer Byte
  readers : List Reader
  copied : List (CallbackId × List Byte)
  acceptedText : List (List Byte)
  completions : List (CallbackId × ℕ)

/-- The inbox of a block. -/
def inbox (t : Tcb) : Inbox where
  pq := t.rcv.pq
  readers := t.onDataReceive
  copied := t.trace.copied
  acceptedText := t.trace.acceptedText
  completions := readDones t.ioCtx

/-- Text meets a reader that waits: the front goes to the reader, the rest into
the queue. -/
def Inbox.deliver (b : Inbox) (reader : Reader) (readers : List Reader) (text : List Byte) :
    Inbox :=
  let n := min text.length reader.size
  { pq := (b.pq.resize (text.length - n) 0).overwrite 0 (text.drop n)
    readers := readers
    copied := b.copied ++ [(reader.cb, text.take n)]
    acceptedText := b.acceptedText ++ [text]
    completions := b.completions ++ [(reader.cb, n)] }

/-- Text meets no reader and is queued. -/
def Inbox.append (b : Inbox) (text : List Byte) : Inbox :=
  { b with
    pq := (b.pq.resize (b.pq.size + text.length) 0).overwrite b.pq.size text
    acceptedText := b.acceptedText ++ [text] }

/-- After a delivery, what the reader has no room for is all there is in the
queue. -/
theorem Inbox.deliver_data (b : Inbox) (reader : Reader) (readers : List Reader)
    (text : List Byte) (hempty : b.pq.data = []) :
    (b.deliver reader readers text).pq.data = text.drop (min text.length reader.size) := by
  have hover := CircularBuffer.overwrite_resize_of_empty hempty
    (text.drop (min text.length reader.size)) 0
  rwa [List.length_drop] at hover

theorem Inbox.append_data (b : Inbox) (text : List Byte) :
    (b.append text).pq.data = b.pq.data ++ text :=
  CircularBuffer.overwrite_resize _ _ _

@[simp] theorem inbox_afterDelivery (t : Tcb) (reader : Reader) (readers : List Reader)
    (text : List Byte) :
    (t.afterDelivery reader readers text).inbox = t.inbox.deliver reader readers text := by
  ext1 <;> simp [inbox, afterDelivery, Inbox.deliver, readDones]

@[simp] theorem inbox_afterAppend (t : Tcb) (text : List Byte) :
    (t.afterAppend text).inbox = t.inbox.append text := rfl

@[simp] theorem inbox_afterPacket (t : Tcb) (pq : CircularBuffer Byte) :
    (t.afterPacket pq).inbox = t.inbox := rfl

@[simp] theorem inbox_listenFinish (t : Tcb) : t.listenFinish.inbox = t.inbox := by
  ext1 <;> simp [inbox, listenFinish, post, readDones]

section Inbox

variable {t t' : Tcb} {seg : Segment}

theorem AckOutcome.inbox_eq {flow : Flow} (h : AckOutcome t seg flow) :
    flow.block.inbox = t.inbox := by
  cases h with
  | accepted hACK hstate hlo hhi =>
      exact inbox_listenFinish (((t.clampUnack seg.tcph.ackNo).setState .established).setNextState
        .established)
  | data hACK hstate pq hpq hhi =>
      obtain ⟨n, hn⟩ := (t.ackData pq seg.tcph.ackNo).ackNextState_eq
      rw [hn]
      rfl
  | _ => rfl

theorem FinOutcome.inbox_eq (h : FinOutcome t seg t') : t'.inbox = t.inbox := by
  cases h <;> rfl

/-- **What an arriving segment does to the inbox**: nothing, unless its text is
taken; then the text goes to the reader that waits longest, or into the queue.

The two cases in which text is taken carry what the assertions have checked:
the queue is empty when there is a reader, and the text fits when there is
none. -/
theorem process_inbox {isn : BitVec 32} (h : t.process isn seg = .ok t') :
    (¬ t.TakesText seg ∧ t'.inbox = t.inbox) ∨
    (t.TakesText seg ∧ ∃ reader readers, t.onDataReceive = reader :: readers ∧
      t.rcv.pq.data = [] ∧ t'.inbox = t.inbox.deliver reader readers seg.text) ∨
    (t.TakesText seg ∧ t.onDataReceive = [] ∧
      t.rcv.pq.size + seg.text.length ≤ t.rcv.pq.capacity ∧
      t'.inbox = t.inbox.append seg.text) := by
  by_cases hreach : t.reachesAckStep seg = true
  · rcases process_reached hreach h with hret | ⟨u, v, hnext, htext, hfin⟩
    · exact .inl ⟨fun htakes => htakes.guarded.not_ret hret, hret.inbox_eq⟩
    · have hu : u.inbox = t.inbox := hnext.inbox_eq
      have hiff := hnext.takesText_iff hreach
      have hreaders' : u.onDataReceive = t.onDataReceive := congrArg Inbox.readers hu
      have hpq : u.rcv.pq = t.rcv.pq := congrArg Inbox.pq hu
      rw [hfin.inbox_eq]
      cases htext with
      | ignored hno =>
          rw [← Bool.not_eq_true] at hno
          exact .inl ⟨fun htakes => hno (hiff.mpr htakes), hu⟩
      | delivered hyes reader readers hreaders hempty =>
          rw [inbox_afterDelivery, hu]
          rw [hreaders'] at hreaders
          rw [hpq] at hempty
          exact .inr (.inl ⟨hiff.mp hyes, reader, readers, hreaders, hempty, rfl⟩)
      | appended hyes hreaders hfit =>
          rw [inbox_afterAppend, hu]
          rw [hreaders'] at hreaders
          rw [hpq] at hfit
          exact .inr (.inr ⟨hiff.mp hyes, hreaders, hfit, rfl⟩)
  · -- The opening states look at no text.
    refine .inl ⟨fun htakes => hreach htakes.reach, ?_⟩
    cases process_cases h with
    | unchanged hno => rfl
    | passiveOpen hstate hRST hACK hSYN opts hopts => rfl
    | activeOpen hstate hSYN hACK hlo hhi opts hopts =>
        rw [inbox_listenFinish, inbox_afterPacket]
        rfl
    | returned hsync hyes => exact (hreach hyes).elim
    | continued hsync hyes => exact (hreach hyes).elim

/-- No callback is invoked while a segment is processed. -/
theorem process_called {isn : BitVec 32} (h : t.process isn seg = .ok t') :
    t'.trace.called = t.trace.called := by
  have hack : ∀ {flow : Flow}, AckOutcome t seg flow →
      flow.block.trace.called = t.trace.called := by
    intro flow hack
    cases hack with
    | data hACK hstate pq hpq hhi =>
        obtain ⟨n, hn⟩ := (t.ackData pq seg.tcph.ackNo).ackNextState_eq
        rw [hn]
        rfl
    | _ => rfl
  cases process_cases h with
  | unchanged hno => rfl
  | passiveOpen hstate hRST hACK hSYN opts hopts => rfl
  | activeOpen hstate hSYN hACK hlo hhi opts hopts => rfl
  | returned hsync hreach hret => exact hack hret
  | @continued t₁ t₂ t' hsync hreach hnext htext hfin =>
      have h₁ : t₁.trace.called = t.trace.called := hack hnext
      have h₂ : t₂.trace.called = t₁.trace.called := by cases htext <;> rfl
      have h₃ : t'.trace.called = t₂.trace.called := by cases hfin <;> rfl
      exact h₃.trans (h₂.trans h₁)

end Inbox

/-! ## The assertions of the text step

Both are about the inbox. -/

/-- **Which segments trip an assertion of the text step**: those whose text is
taken while a reader waits behind buffered bytes, or while nobody waits and the
text does not fit.

Both directions.  The hypothesis about the send queue excludes the blocks that
stop in the ACK step already, for want of a queue; no reachable block is one of
them (`Tcp.LifeCycle`). -/
theorem process_text_error {isn : BitVec 32} {t : Tcb} {seg : Segment} {f : Fault}
    (hqueue : t.state.synchronized = true → ∃ pq, t.send.pq = some pq)
    (hf : f = .readerWhileBuffered ∨ f = .receiveQueueCapacity) :
    t.process isn seg = .error f ↔ t.TakesText seg ∧
      ((f = .readerWhileBuffered ∧ t.onDataReceive ≠ [] ∧ t.rcv.pq.data ≠ []) ∨
        (f = .receiveQueueCapacity ∧ t.onDataReceive = [] ∧
          t.rcv.pq.capacity < t.rcv.pq.size + seg.text.length)) := by
  by_cases hreach : t.reachesAckStep seg = true
  · have hsync := reachesAckStep_synchronized hreach
    obtain ⟨pq, hpq⟩ := hqueue hsync
    obtain ⟨flow, hflow⟩ := ackStep_total seg hpq
    have hack := ackStep_cases hflow
    rw [process_of_synchronized hsync, if_pos hreach, acceptSegment, hflow, EventSystem.ok_bind]
    cases flow with
    | ret u =>
        refine iff_of_false (fun h => by cases h) ?_
        rintro ⟨htakes, -⟩
        exact htakes.guarded.not_ret hack
    | next u =>
        obtain ⟨hrcv, hreaders, -⟩ := hack.frame
        change u.rcv = t.rcv at hrcv
        change u.onDataReceive = t.onDataReceive at hreaders
        rw [← hack.takesText_iff hreach, ← hrcv, ← hreaders, ← textStep_error_iff, bind_eq_error]
        constructor
        · rintro (h | ⟨v, hv, h⟩)
          · exact h
          · -- Behind the text step the queue is still there, so the FIN step goes through.
            obtain ⟨pq', hpq'⟩ := hack.keeps_queue ⟨pq, hpq⟩
            have hpqv : v.send.pq = some pq' := by rw [(textStep_cases hv).send_eq]; exact hpq'
            obtain ⟨w, hw⟩ := finStep_total seg hpqv
            rw [hw] at h
            cases h
        · exact .inl
  · refine iff_of_false ?_ fun h => hreach h.1.reach
    intro h
    by_cases hsync : t.state.synchronized = true
    · rw [process_of_synchronized hsync, if_neg hreach] at h
      cases h
    · have hdecode := process_error_of_not_synchronized (by simpa using hsync) h
      rcases decodeOptions_error hdecode with rfl | rfl <;>
        rcases hf with hf | hf <;> cases hf

end Tcb

end Mstack
