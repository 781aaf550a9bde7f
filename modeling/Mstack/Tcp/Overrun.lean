import Mstack.Tcp.ReceiveStream
import Mstack.Tcp.Guard

/-!
# Overrunning the receive queue

`rcv_.pq` has room for the window that every packet announces, and nothing else
keeps the peer within it:

* the window test compares SEG.SEQ with RCV.NXT and, for text, not with the end
  of the window;
* the guard of the text step compares it with the frontier, from below;
* text that passes both is appended under an assertion.

RCV.NXT does not move while text is only buffered, so every packet announces
the whole window again, however full the queue is.

### Main results

* `receive_queue_overrun_iff` — for segments that fit a frame, the assertion
  holds throughout a run exactly if no text that reaches the append step is
  longer than what the window has left (`WithinWindow`).
* `flood_overruns` — a peer that sends in order, without waiting for the
  reader: 44 full segments fit, the 45th stops the process.

### Implementation notes

`WithinWindow` is the test a receiver with flow control would make, on the
block and the segment before it is processed; `TakesText` says which texts get
that far.  The rest of a segment behind a waiting reader is pushed without an
assertion, and `OnFrame` keeps it smaller than the queue.
-/

namespace Mstack

namespace Tcb

open EventSystem (Admitted)

/-- The segment came in a frame of the device, 1500 bytes with the three
headers. -/
def OnFrame (_ : Tcb) (seg : Segment) : Prop :=
  14 + 20 + TcpHeader.fixedSize + seg.opts.length + seg.text.length ≤ 1500

/-- **Text stays within the window**: what is taken while no reader waits is no
longer than the window less what is buffered. -/
def WithinWindow (t : Tcb) (seg : Segment) : Prop :=
  t.TakesText seg → t.onDataReceive = [] →
    seg.text.length ≤ rcvWindow.toNat - t.rcv.pq.size

/-- A block in ESTABLISHED whose receive queue has the capacity it was
constructed with. -/
structure EstablishedReceiver (t : Tcb) : Prop where
  state : t.state = .established
  nextState : t.nextState = .established
  queue : ∃ pq, t.send.pq = some pq
  capacity : t.rcv.pq.capacity = rcvWindow.toNat

/-- The invariant: the block stays open and the queue keeps its capacity. -/
structure KeepsCapacity (t : Tcb) : Prop extends Open t where
  capacity : t.rcv.pq.capacity = rcvWindow.toNat

theorem EstablishedReceiver.keepsCapacity {t : Tcb} (h : EstablishedReceiver t) :
    KeepsCapacity t := by
  obtain ⟨pq, hpq⟩ := h.queue
  exact ⟨.of_established h.state h.nextState hpq, h.capacity⟩

section KeepsCapacity

variable {t t' : Tcb}

/-- Neither the rest of a frame nor text that fits raises the capacity. -/
theorem KeepsCapacity.process {isn : BitVec 32} {seg : Segment} (h : KeepsCapacity t)
    (hframe : OnFrame t seg) (hprocess : t.process isn seg = .ok t') : KeepsCapacity t' := by
  refine ⟨h.toOpen.process hprocess, ?_⟩
  have hcap := h.capacity
  have hwindow : rcvWindow.toNat = 64240 := rfl
  rw [OnFrame] at hframe
  show t'.inbox.pq.capacity = _
  rcases process_inbox hprocess with
    ⟨-, hinbox⟩ | ⟨-, reader, readers, -, -, hinbox⟩ | ⟨-, -, hfit, hinbox⟩
  · rw [hinbox]
    exact hcap
  · rw [hinbox]
    show max t.rcv.pq.capacity _ = _
    omega
  · rw [hinbox]
    show max t.rcv.pq.capacity (t.rcv.pq.size + seg.text.length) = _
    omega

theorem KeepsCapacity.appCall {c : AppCall} (h : KeepsCapacity t)
    (hcall : t.appCall c = .ok t') : KeepsCapacity t' := by
  refine ⟨h.toOpen.appCall hcall, ?_⟩
  have hcap := h.capacity
  cases appCall_cases hcall <;> exact hcap

theorem step_keepsCapacity {isn : BitVec 32} {e : Event} (h : KeepsCapacity t)
    (hok : EventOk OnFrame (fun _ _ => True) t e) (hstep : step isn t e = .ok t') :
    KeepsCapacity t' := by
  refine step_induction ?_ ?_ ?_ ?_ t e t' h hok hstep
  · exact fun t seg t' h hframe hprocess => h.process hframe hprocess
  · exact fun t c t' h _ hcall => h.appCall hcall
  · exact fun t k task h _ => ⟨h.toOpen.enterTask k task, by rw [enterTask_rcv]; exact h.capacity⟩
  · exact fun t pq h hpq => ⟨h.toOpen.afterPacket hpq, h.capacity⟩

/-- **The assertion of the append step, for one segment.**  From
`process_text_error`; the capacity is what `WithinWindow` calls the window. -/
theorem KeepsCapacity.process_overrun_iff {isn : BitVec 32} {seg : Segment}
    (h : KeepsCapacity t) :
    t.process isn seg ≠ .error .receiveQueueCapacity ↔ WithinWindow t seg := by
  have hcap := h.capacity
  have hsize := t.rcv.pq.size_le
  rw [ne_eq, process_text_error (fun _ => h.toOpen.pq) (.inr rfl)]
  constructor
  · intro hno htakes hreaders
    by_contra hlong
    exact hno ⟨htakes, .inr ⟨rfl, hreaders, by omega⟩⟩
  · rintro hwithin ⟨htakes, ⟨hf, -⟩ | ⟨-, hreaders, hlong⟩⟩
    · cases hf
    · have hle := hwithin htakes hreaders
      omega

/-- **For one event.**  Calls and handlers never come near the append step. -/
theorem KeepsCapacity.step_overrun_iff {isn : BitVec 32} {e : Event} (h : KeepsCapacity t) :
    step isn t e ≠ .error .receiveQueueCapacity ↔
      EventOk WithinWindow (fun _ _ => True) t e := by
  cases e with
  | process seg => exact h.process_overrun_iff
  | call c =>
      refine iff_of_true ?_ trivial
      intro herror
      rcases appCall_error_cases herror with hf | hf <;> cases hf
  | task k calls =>
      refine iff_of_true ?_ fun _ _ _ => EventSystem.admitted_of_forall (fun _ _ => trivial) _ _
      intro herror
      rcases task_error herror with hf | hf <;> cases hf

end KeepsCapacity

/-- **When the receive queue is not overrun.**  For every run of an ESTABLISHED
block over segments that fit a frame, with any reads and writes: the capacity
assertion of the text step holds throughout if and only if text that is taken
while no reader waits never exceeds what the window has left.  The queue keeps
its capacity of 0xFAF0 bytes. -/
theorem receive_queue_overrun_iff {isn : BitVec 32} {t₀ : Tcb} {es : List Event}
    (hstart : EstablishedReceiver t₀) (hframes : RunOk isn OnFrame (fun _ _ => True) t₀ es) :
    (run isn t₀ es ≠ .error .receiveQueueCapacity ↔
      RunOk isn WithinWindow (fun _ _ => True) t₀ es) ∧
    ∀ t, run isn t₀ es = .ok t →
      t.rcv.pq.capacity = 0xFAF0 ∧ t.rcv.pq.size ≤ 0xFAF0 := by
  have hstep : ∀ s e s', KeepsCapacity s → EventOk OnFrame (fun _ _ => True) s e →
      step isn s e = .ok s' → KeepsCapacity s' := fun s e s' h hok hs => step_keepsCapacity h hok hs
  refine ⟨?_, ?_⟩
  · exact EventSystem.run_avoids_iff hstep (fun s e h _ => h.step_overrun_iff)
      hstart.keepsCapacity hframes
  · intro t hrun
    have h := EventSystem.run_invariant hstep hstart.keepsCapacity hframes hrun
    have hcap : t.rcv.pq.capacity = 0xFAF0 := h.capacity
    exact ⟨hcap, hcap ▸ t.rcv.pq.size_le⟩

/-- Two bytes that nobody waits for, then a read. -/
def smallTexts : List Event :=
  [.process ⟨{ TcpHeader.bare with ACK := true, seqNo := 101, ackNo := 8 }, [], [0x61, 0x62]⟩,
    .call (.read 2 1)]

theorem smallTexts_fit :
    RunOk 7 OnFrame (fun _ _ => True) (established 7 100 1446 500) smallTexts ∧
    run 7 (established 7 100 1446 500) smallTexts ≠ .error .receiveQueueCapacity ∧
    RunOk 7 WithinWindow (fun _ _ => True) (established 7 100 1446 500) smallTexts := by
  have hstart : EstablishedReceiver (established 7 100 1446 500) := ⟨rfl, rfl, ⟨_, rfl⟩, rfl⟩
  have hframes : RunOk 7 OnFrame (fun _ _ => True) (established 7 100 1446 500) smallTexts := by
    refine .cons ?_ rfl (.single trivial)
    show 14 + 20 + 20 + 0 + 2 ≤ 1500
    omega
  have hrun : run 7 (established 7 100 1446 500) smallTexts ≠ .error .receiveQueueCapacity :=
    nofun
  exact ⟨hframes, hrun, (receive_queue_overrun_iff hstart hframes).1.mp hrun⟩

/-! ## A peer that does not wait

The segments are all valid, in order, and within the window that was last
announced. -/

/-- The `k`-th full segment of a stream that starts at 101. -/
def fullSegment (k : ℕ) : Segment :=
  ⟨{ TcpHeader.bare with ACK := true, seqNo := 101 + BitVec.ofNat 32 (1446 * k), ackNo := 8 }, [],
    List.replicate 1446 0x61⟩

/-- The first `n` of them, in order. -/
def flood (n : ℕ) : List Event := (List.range n).map fun k => .process (fullSegment k)

theorem flood_succ (n : ℕ) : flood (n + 1) = flood n ++ [.process (fullSegment n)] := by
  rw [flood, List.range_succ, List.map_append]
  rfl

/-- After `k` segments of the flood all their text is buffered. -/
structure Flooded (k : ℕ) (t : Tcb) : Prop extends KeepsCapacity t where
  established : t.state = .established
  sendNext : t.send.state.seqNrNext = 8
  next : t.rcv.state.next = 101
  window : t.rcv.state.window = rcvWindow
  readers : t.onDataReceive = []
  size : t.rcv.pq.size = 1446 * k

section Flood

variable {k : ℕ} {t : Tcb}

theorem fullSegment_seqNo (hk : k ≤ 44) :
    (fullSegment k).tcph.seqNo.toNat = 101 + 1446 * k := by
  show (101#32 + BitVec.ofNat 32 (1446 * k)).toNat = _
  exact SerialNumber.toNat_add_ofNat _ (by show 101 + _ < _; omega)

theorem fullSegment_length (k : ℕ) : (fullSegment k).text.length = 1446 := List.length_replicate

theorem fullSegment_onFrame (t : Tcb) (k : ℕ) : OnFrame t (fullSegment k) := by
  have htext := fullSegment_length k
  show 14 + 20 + 20 + 0 + (fullSegment k).text.length ≤ 1500
  omega

theorem Flooded.takesText (h : Flooded k t) (hk : k ≤ 44) : t.TakesText (fullSegment k) := by
  have hseq := fullSegment_seqNo hk
  have hcheck : t.tcpCheckSegment (fullSegment k).tcph
      (BitVec.ofNat 16 (fullSegment k).text.length) = true := by
    have hsync : t.state.synchronized = true := h.toOpen.synchronized
    have hle : (101 : BitVec 32) ≤ (fullSegment k).tcph.seqNo := by
      rw [BitVec.le_def, hseq]
      exact Nat.le_add_right _ _
    rw [fullSegment_length]
    unfold tcpCheckSegment
    simp only [hsync, h.next, h.window, rcvWindow]
    simpa using Or.inl hle
  refine ⟨?_, ⟨?_, ?_, ?_, ?_⟩, ?_⟩
  · rw [reachesAckStep, hcheck]
    rfl
  · rw [fullSegment_length]
    decide
  · rw [textState, h.established]
    rfl
  · intro _ hstate
    rw [h.established] at hstate
    cases hstate
  · intro _ _
    show ¬ (8 : BitVec 32) > t.send.state.seqNrNext
    rw [h.sendNext]
    decide
  · rw [textGuard, h.next, h.size, decide_eq_true_eq, hseq]
    exact Nat.lt_irrefl _

/-- The ACK step confirms nothing and goes on; the text is appended. -/
theorem Flooded.process (isn : BitVec 32) (h : Flooded k t) (hk : k < 44) :
    ∃ t', t.process isn (fullSegment k) = .ok t' ∧ Flooded (k + 1) t' := by
  have htakes := h.takesText (Nat.le_of_lt hk)
  have htext := fullSegment_length k
  have hcap := h.capacity
  have hsize := h.size
  have hwindow : rcvWindow.toNat = 64240 := rfl
  obtain ⟨pq, hpq⟩ := h.toOpen.pq
  obtain ⟨t', ht'⟩ : ∃ t', t.process isn (fullSegment k) = .ok t' := by
    refine process_total h.toOpen.synchronized hpq (fun hne => (hne h.readers).elim) ?_
    intro _ _ _ _ _
    omega
  have hkeeps := h.toKeepsCapacity.process (fullSegment_onFrame t k) ht'
  -- Of all the ways through the three steps only one is left.
  rcases process_reached htakes.reach ht' with hret | ⟨u, v, hnext, htextOut, hfin⟩
  · exact (htakes.guarded.not_ret hret).elim
  · have hyes := (hnext.takesText_iff htakes.reach).mpr htakes
    cases hnext with
    | absent hACK => cases hACK
    | accepted _ hstate => rw [h.established] at hstate; cases hstate
    | timeWait _ hstate => rw [h.established] at hstate; cases hstate
    | unsynchronized _ hstate => rw [h.established] at hstate; cases hstate
    | data _ hacks pq' hpq' _ =>
        rw [ackNextState_of_acksData (h.toControlled.ackData hpq') hacks] at htextOut hyes
        cases htextOut with
        | ignored hno => rw [hyes] at hno; cases hno
        | delivered _ reader readers hreaders =>
            rw [ackData_onDataReceive, h.readers] at hreaders
            cases hreaders
        | appended _ _ _ =>
            cases hfin with
            | closed hFIN => cases hFIN
            | finWait hFIN => cases hFIN
            | ignored _ =>
                refine ⟨_, ht', hkeeps, h.established, h.sendNext, h.next, h.window, h.readers, ?_⟩
                rw [CircularBuffer.size_eq, afterAppend_data, List.length_append, ackData_rcv,
                  ← CircularBuffer.size_eq, htext, hsize]
                omega

/-- The segment after that does not fit. -/
theorem Flooded.overruns {isn : BitVec 32} (h : Flooded 44 t) :
    t.process isn (fullSegment 44) = .error .receiveQueueCapacity := by
  refine (process_text_error (fun _ => h.toOpen.pq) (.inr rfl)).mpr ⟨h.takesText le_rfl, .inr ?_⟩
  refine ⟨rfl, h.readers, ?_⟩
  rw [h.capacity, h.size, fullSegment_length]
  decide

end Flood

theorem flooded_established : Flooded 0 (established 7 100 1446 500) := by
  have hstart : EstablishedReceiver (established 7 100 1446 500) := ⟨rfl, rfl, ⟨_, rfl⟩, rfl⟩
  exact ⟨hstart.keepsCapacity, rfl, rfl, rfl, rfl, rfl, rfl⟩

/-- What a flood of at most 44 segments leaves. -/
theorem flood_run {n : ℕ} (hn : n ≤ 44) :
    ∃ t, run 7 (established 7 100 1446 500) (flood n) = .ok t ∧ Flooded n t := by
  induction n with
  | zero => exact ⟨_, rfl, flooded_established⟩
  | succ n ih =>
      obtain ⟨t, hrun, hflooded⟩ := ih (by omega)
      obtain ⟨t', ht', hflooded'⟩ := hflooded.process 7 (by omega)
      refine ⟨t', ?_, hflooded'⟩
      rw [run, flood_succ, EventSystem.run_concat, show EventSystem.run _ _ _ = _ from hrun,
        EventSystem.ok_bind]
      exact ht'

/-- **45 full segments in order, and no reader, overrun the queue.**  Each lies
within the window announced last.  The run is one of `RunOk`: nothing the peer
sends is malformed. -/
theorem flood_overruns :
    RunOk 7 OnFrame OneRead (established 7 100 1446 500) (flood 45) ∧
    run 7 (established 7 100 1446 500) (flood 45) = .error .receiveQueueCapacity := by
  refine ⟨?_, ?_⟩
  · refine EventSystem.admitted_of_mem (fun e he t => ?_) _
    obtain ⟨k, -, rfl⟩ := List.mem_map.mp he
    exact fullSegment_onFrame t k
  · obtain ⟨t, hrun, hflooded⟩ := flood_run le_rfl
    rw [run, flood_succ, EventSystem.run_concat, show EventSystem.run _ _ _ = _ from hrun,
      EventSystem.ok_bind]
    exact hflooded.overruns

end Tcb

end Mstack
