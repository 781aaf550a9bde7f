import Mstack.Tcp.ReceiveStream
import Mstack.Tcp.Guard

/-!
# Readers that wait

`rcv_.pq` and `on_data_receive_` are the two halves of a rendezvous: bytes wait
for a reader, or readers wait for bytes, and the text step asserts that they do
not both wait.

Whatever segments and reads do, they keep it so, except for text that is longer
than the buffer of the first of several readers.  The front of it goes to that
reader, the rest is put into the queue although the next reader is already
there, and the next text trips the assertion (`long_text_for_two_readers`).

### Main result

`pending_reader_excludes_buffered`: without such a segment, and with any number
of reads outstanding, nobody waits while bytes are buffered, no byte is lost,
and reads complete in the order in which they were issued.

### Outline

All of it happens in the inbox (`Tcp.Guard`), so the invariant is one on
inboxes, `Inbox.Orderly`, with one lemma for each of the four operations:
deliver, append, take, wait.  `Reading` adds the account of completions.
Completions are delivered by handlers, which the loop of the source runs in
turn; if they are run in another order, everything but the account still holds,
and `turns` is the proposition that they are run in turn.
-/

namespace Mstack

namespace Tcb

open EventSystem (bind_eq_ok Admitted)

/-! ## Reads, in the order in which they are issued

Reads are issued by events and inside callbacks. -/

/-- The reads among a list of calls. -/
def readsAmong (calls : List AppCall) : List CallbackId :=
  calls.filterMap fun
    | .read _ cb => some cb
    | .write _ _ => none

/-- The reads an event issues: the call itself, or the calls inside a callback
that is invoked. -/
def issuedBy (t : Tcb) : Event → List CallbackId
  | .process _ => []
  | .call c => readsAmong [c]
  | .task k calls =>
      match t.ioCtx[k]? with
      | none | some .sendLoop => []
      | some _ => readsAmong calls

/-- The reads a run issues. -/
def issued (isn : BitVec 32) : Tcb → List Event → List CallbackId
  | _, [] => []
  | t, e :: es =>
      t.issuedBy e ++
        match step isn t e with
        | .ok t' => issued isn t' es
        | .error _ => []

theorem issued_concat {isn : BitVec 32} {t s : Tcb} {es : List Event} (e : Event)
    (hrun : run isn t es = .ok s) :
    issued isn t (es ++ [e]) = issued isn t es ++ s.issuedBy e :=
  EventSystem.gathered_concat (fun _ => rfl)
    (fun s e es => by rw [issued]; cases step isn s e <;> rfl) e hrun

/-- The reads whose callback has been invoked, with the byte counts. -/
def readsCalled (t : Tcb) : List (CallbackId × ℕ) :=
  t.trace.called.filterMap fun
    | .read cb nbytes => some (cb, nbytes)
    | _ => none

/-! ## Reads and the inbox

The four operations keep the order. -/

/-- A read that finds bytes takes the front of the queue. -/
def Inbox.take (b : Inbox) (size : ℕ) (cb : CallbackId) : Inbox :=
  let n := min b.pq.size size
  { b with
    pq := b.pq.eraseBegin n
    copied := b.copied ++ [(cb, b.pq.data.take n)]
    completions := b.completions ++ [(cb, n)] }

/-- A read that finds none waits. -/
def Inbox.wait (b : Inbox) (size : ℕ) (cb : CallbackId) : Inbox :=
  { b with readers := b.readers ++ [⟨size, cb⟩] }

@[simp] theorem inbox_afterRead (t : Tcb) (size : ℕ) (cb : CallbackId) :
    (t.afterRead size cb).inbox = t.inbox.take size cb := by
  ext1 <;> simp [inbox, afterRead, Inbox.take, readDones]

@[simp] theorem inbox_afterWait (t : Tcb) (size : ℕ) (cb : CallbackId) :
    (t.afterWait size cb).inbox = t.inbox.wait size cb := rfl

@[simp] theorem inbox_afterWrite (t : Tcb) (pq : CircularBuffer Byte) (buf : List Byte)
    (cb : CallbackId) : (t.afterWrite pq buf cb).inbox = t.inbox := by
  ext1 <;> simp [inbox, afterWrite, readDones]

theorem mem_readDones {tasks : List Task} {cb : CallbackId} {len : ℕ} :
    (cb, len) ∈ readDones tasks ↔ .readDone cb len ∈ tasks := by
  rw [readDones, List.mem_filterMap]
  constructor
  · rintro ⟨task, hmem, htask⟩
    cases task <;> cases htask
    exact hmem
  · exact fun hmem => ⟨_, hmem, rfl⟩

/-- Whether a read is outstanding, from the inbox. -/
theorem noReadOutstanding_iff {t : Tcb} :
    NoReadOutstanding t ↔ t.inbox.readers = [] ∧ t.inbox.completions = [] := by
  refine and_congr_right fun _ => ?_
  rw [List.eq_nil_iff_forall_not_mem]
  exact ⟨fun hno done hmem => hno _ _ (mem_readDones.mp hmem),
    fun hno cb len hmem => hno (cb, len) (mem_readDones.mpr hmem)⟩

/-- Taking a handler off the queue takes its completion, if it has one. -/
theorem readDones_eraseIdx {tasks : List Task} {k : ℕ} {task : Task} (hk : tasks[k]? = some task) :
    ∃ pre post, readDones tasks = pre ++ readDones [task] ++ post ∧
      readDones (tasks.eraseIdx k) = pre ++ post := by
  obtain ⟨hlt, rfl⟩ := List.getElem?_eq_some_iff.mp hk
  refine ⟨readDones (tasks.take k), readDones (tasks.drop (k + 1)), ?_, ?_⟩
  · rw [← readDones_append, ← readDones_append, List.append_assoc, List.singleton_append,
      List.getElem_cons_drop, List.take_append_drop]
  · rw [← readDones_append, List.eraseIdx_eq_take_drop_succ]

/-- A handler that completes no read does not touch the inbox. -/
theorem inbox_enterTask {t : Tcb} {k : ℕ} {task : Task} (hk : t.ioCtx[k]? = some task)
    (hno : readDones [task] = []) : (t.enterTask k task).inbox = t.inbox := by
  obtain ⟨pre, post, hbefore, hafter⟩ := readDones_eraseIdx hk
  rw [hno, List.append_nil] at hbefore
  ext1 <;> simp [inbox, hbefore, hafter]

/-- The only completion that is posted. -/
theorem inbox_enterTask_readDone {t : Tcb} {k : ℕ} {cb cb' : CallbackId} {len len' : ℕ}
    (hk : t.ioCtx[k]? = some (.readDone cb len)) (hdones : t.inbox.completions = [(cb', len')]) :
    cb = cb' ∧ len = len' ∧
      (t.enterTask k (.readDone cb len)).inbox = { t.inbox with completions := [] } := by
  obtain ⟨pre, post, hbefore, hafter⟩ := readDones_eraseIdx hk
  rw [readDones_singleton] at hbefore
  have heq : pre ++ [(cb, len)] ++ post = [(cb', len')] := hbefore.symm.trans hdones
  have hlen := congrArg List.length heq
  simp only [List.length_append, List.length_singleton] at hlen
  obtain rfl : pre = [] := List.length_eq_zero_iff.mp (by omega)
  obtain rfl : post = [] := List.length_eq_zero_iff.mp (by omega)
  obtain ⟨rfl, rfl⟩ : cb = cb' ∧ len = len' := by simpa using heq
  refine ⟨rfl, rfl, ?_⟩
  ext1 <;> simp [inbox, hafter]

/-- **Order in the inbox.**  Readers wait only while nothing is buffered; what
readers have got, followed by the queue, is the text taken; and the reads
served, followed by those that wait, are the reads issued. -/
structure Inbox.Orderly (b : Inbox) (ids : List CallbackId) : Prop where
  exclusive : b.readers ≠ [] → b.pq.data = []
  stream : (b.copied.map (·.2)).flatten ++ b.pq.data = b.acceptedText.flatten
  order : b.copied.map (·.1) ++ b.readers.map (·.cb) = ids

/-- Every read served has a completion, with the count of its bytes. -/
def Inbox.Accounted (b : Inbox) (called : List (CallbackId × ℕ)) : Prop :=
  called ++ b.completions = b.copied.map fun c => (c.1, c.2.length)

section Inbox

variable {b : Inbox} {ids : List CallbackId} {called : List (CallbackId × ℕ)}

/-- **Text for a reader.**  If others wait behind it, it has to take all of the
text. -/
theorem Inbox.Orderly.deliver (h : b.Orderly ids) {reader : Reader} {readers : List Reader}
    {text : List Byte} (hreaders : b.readers = reader :: readers) (hempty : b.pq.data = [])
    (hfit : readers ≠ [] → text.length ≤ reader.size) :
    (b.deliver reader readers text).Orderly ids := by
  have hdata : (b.deliver reader readers text).pq.data = _ :=
    b.deliver_data reader readers text hempty
  refine ⟨?_, ?_, ?_⟩
  · intro hne
    rw [hdata, Nat.min_eq_left (hfit hne), List.drop_length]
  · have hstream := h.stream
    rw [hempty, List.append_nil] at hstream
    rw [hdata]
    simp [Inbox.deliver, ← hstream]
  · have horder := h.order
    rw [hreaders] at horder
    simpa [Inbox.deliver] using horder

theorem Inbox.Orderly.append (h : b.Orderly ids) (text : List Byte) (hreaders : b.readers = []) :
    (b.append text).Orderly ids := by
  refine ⟨fun hne => (hne hreaders).elim, ?_, h.order⟩
  rw [b.append_data text, ← List.append_assoc]
  show ((b.copied.map (·.2)).flatten ++ b.pq.data) ++ text = (b.acceptedText ++ [text]).flatten
  rw [h.stream]
  simp

/-- A read that finds bytes finds no reader before it. -/
theorem Inbox.Orderly.take (h : b.Orderly ids) (size : ℕ) (cb : CallbackId)
    (hdata : b.pq.data ≠ []) : (b.take size cb).Orderly (ids ++ [cb]) := by
  have hreaders : b.readers = [] := by
    by_contra hne
    exact hdata (h.exclusive hne)
  refine ⟨fun hne => (hne hreaders).elim, ?_, ?_⟩
  · show _ = b.acceptedText.flatten
    rw [← h.stream]
    simp [Inbox.take]
  · rw [← h.order]
    simp [Inbox.take, hreaders]

theorem Inbox.Orderly.wait (h : b.Orderly ids) (size : ℕ) (cb : CallbackId)
    (hempty : b.pq.data = []) : (b.wait size cb).Orderly (ids ++ [cb]) := by
  refine ⟨fun _ => hempty, h.stream, ?_⟩
  rw [← h.order]
  simp [Inbox.wait]

theorem Inbox.Accounted.deliver (h : b.Accounted called) (reader : Reader)
    (readers : List Reader) (text : List Byte) :
    (b.deliver reader readers text).Accounted called := by
  unfold Inbox.Accounted at h ⊢
  simp [Inbox.deliver, ← h]

theorem Inbox.Accounted.take (h : b.Accounted called) (size : ℕ) (cb : CallbackId) :
    (b.take size cb).Accounted called := by
  unfold Inbox.Accounted at h ⊢
  simp [Inbox.take, CircularBuffer.size_eq, ← h, Nat.min_comm]

end Inbox

/-! ## The block

The same for events of a block. -/

/-- Where text is taken while several readers wait, the first of them has room
for all of it.  A condition on the block and the segment; with one reader it
says nothing. -/
def FitsFirstReader (t : Tcb) (seg : Segment) : Prop :=
  t.TakesText seg → ∀ reader readers, t.onDataReceive = reader :: readers → readers ≠ [] →
    seg.text.length ≤ reader.size

/-- The loop takes the handler that was posted first. -/
def InTurn : Event → Prop
  | .process _ => True
  | .call _ => True
  | .task k _ => k = 0

/-- The invariant: order in the inbox and, for handlers that run in turn, an
account of the completions. -/
structure Reading (turns : Prop) (ids : List CallbackId) (t : Tcb) : Prop where
  orderly : t.inbox.Orderly ids
  accounted : turns → t.inbox.Accounted t.readsCalled

section Reading

variable {turns : Prop} {ids : List CallbackId} {t t' : Tcb}

theorem Reading.congr (h : Reading turns ids t) (hinbox : t'.inbox = t.inbox)
    (hcalled : t'.trace.called = t.trace.called) : Reading turns ids t' := by
  refine ⟨by rw [hinbox]; exact h.orderly, fun hturns => ?_⟩
  rw [hinbox, readsCalled, hcalled]
  exact h.accounted hturns

theorem Reading.process {isn : BitVec 32} {seg : Segment} (h : Reading turns ids t)
    (hfits : FitsFirstReader t seg) (hprocess : t.process isn seg = .ok t') :
    Reading turns ids t' := by
  have hcalled : t'.readsCalled = t.readsCalled := by
    rw [readsCalled, readsCalled, process_called hprocess]
  rcases process_inbox hprocess with
    ⟨-, hinbox⟩ | ⟨htakes, reader, readers, hreaders, hempty, hinbox⟩ | ⟨-, hreaders, -, hinbox⟩
  · exact h.congr hinbox (process_called hprocess)
  · refine ⟨?_, fun hturns => ?_⟩
    · rw [hinbox]
      exact h.orderly.deliver hreaders hempty (hfits htakes reader readers hreaders)
    · rw [hinbox, hcalled]
      exact (h.accounted hturns).deliver reader readers seg.text
  · refine ⟨?_, fun hturns => ?_⟩
    · rw [hinbox]
      exact h.orderly.append seg.text hreaders
    · rw [hinbox, hcalled]
      exact h.accounted hturns

theorem Reading.appCall {c : AppCall} (h : Reading turns ids t) (hcall : t.appCall c = .ok t') :
    Reading turns (ids ++ readsAmong [c]) t' := by
  cases appCall_cases hcall with
  | waits size cb hempty => exact ⟨h.orderly.wait size cb hempty, h.accounted⟩
  | reads size cb hdata =>
      refine ⟨?_, fun hturns => ?_⟩
      · rw [inbox_afterRead]
        exact h.orderly.take size cb hdata
      · rw [inbox_afterRead]
        exact (h.accounted hturns).take size cb
  | writes buf cb pq hpq hfit =>
      rw [show readsAmong [AppCall.write buf cb] = [] from rfl, List.append_nil]
      exact h.congr (inbox_afterWrite t pq buf cb) rfl

/-- The calls inside a callback. -/
theorem Reading.appCalls {calls : List AppCall} (h : Reading turns ids t)
    (hcalls : t.appCalls calls = .ok t') : Reading turns (ids ++ readsAmong calls) t' := by
  have hadm : Admitted Tcb.appCall (fun _ _ => True) t calls :=
    EventSystem.admitted_of_forall (fun _ _ => trivial) t calls
  refine EventSystem.run_history (P := fun past u => Reading turns (ids ++ readsAmong past) u)
    ?_ (by simpa [readsAmong] using h) hadm hcalls
  intro past u c u' hu _ hcall
  have hnext := hu.appCall hcall
  rwa [List.append_assoc, readsAmong, readsAmong, ← List.filterMap_append] at hnext

/-- Taking a handler off the queue moves its completion to the callbacks
invoked; in turn, it is the oldest one. -/
theorem Reading.enterTask {k : ℕ} {task : Task} (h : Reading turns ids t)
    (hk : t.ioCtx[k]? = some task) (hturn : turns → k = 0) :
    Reading turns ids (t.enterTask k task) := by
  have horderly : (t.enterTask k task).inbox.Orderly ids := by
    have horderly := h.orderly
    constructor
    · simpa [inbox] using horderly.exclusive
    · simpa [inbox] using horderly.stream
    · simpa [inbox] using horderly.order
  refine ⟨horderly, fun hturns => ?_⟩
  have haccounted := h.accounted hturns
  have hzero := hturn hturns
  subst hzero
  obtain ⟨rest, hio⟩ : ∃ rest, t.ioCtx = task :: rest := by
    cases hio : t.ioCtx with
    | nil => rw [hio] at hk; cases hk
    | cons first rest =>
        rw [hio] at hk
        cases hk
        exact ⟨rest, rfl⟩
  unfold Inbox.Accounted at haccounted ⊢
  rw [show (t.enterTask 0 task).inbox.copied = t.inbox.copied by simp [inbox], ← haccounted]
  cases task <;> simp [inbox, readsCalled, hio, readDones, invokes]

/-- **One event**, with the reads it issues.  The order of issue is the order
of the events and, inside a callback, of its calls. -/
theorem Reading.step {isn : BitVec 32} {e : Event} (h : Reading turns ids t)
    (hok : EventOk FitsFirstReader (fun _ _ => True) t e) (hturn : turns → InTurn e)
    (hstep : step isn t e = .ok t') : Reading turns (ids ++ t.issuedBy e) t' := by
  cases e with
  | process seg =>
      rw [issuedBy, List.append_nil]
      exact h.process hok hstep
  | call c => exact h.appCall hstep
  | task k calls =>
      cases hk : t.ioCtx[k]? with
      | none =>
          rw [step_task_none calls hk] at hstep
          cases hstep
          simpa [issuedBy, hk] using h
      | some task =>
          rw [step_task_some calls hk] at hstep
          have henter := h.enterTask hk hturn
          cases task with
          | connectionEstablished =>
              simpa [issuedBy, hk] using henter.appCalls hstep
          | writeDone cb len =>
              simpa [issuedBy, hk] using henter.appCalls hstep
          | readDone cb len =>
              obtain ⟨u, hu, hsend⟩ := bind_eq_ok.mp hstep
              obtain ⟨pq, -, rfl⟩ := makeAndSendPkt_ok.mp hsend
              have hcalls := (henter.appCalls hu).congr (inbox_afterPacket u pq) rfl
              simpa [issuedBy, hk] using hcalls
          | sendLoop =>
              have hloop := sendLoop_preserves (P := Reading turns ids)
                (fun u pq hu _ => hu.congr (inbox_afterPacket u pq) rfl) henter hstep
              simpa [issuedBy, hk] using hloop

end Reading

theorem Opened.reading {isn : BitVec 32} {t : Tcb} (h : Opened isn t) (turns : Prop) :
    Reading turns [] t := by
  cases h with
  | passive remoteEp localEp junkSend junkRcv =>
      exact ⟨⟨fun hne => (hne rfl).elim, rfl, rfl⟩, fun _ => rfl⟩
  | active remoteEp localEp junkSend junkRcv h =>
      rw [startConnecting_eq] at h
      cases h
      exact ⟨⟨fun hne => (hne rfl).elim, rfl, rfl⟩, fun _ => rfl⟩

/-- **The assertion of the text step.**  Where readers wait only while nothing
is buffered, no event finds them both.  `process_text_error` says what the
assertion asks, and `Inbox.Orderly.exclusive` answers it. -/
theorem step_ne_readerWhileBuffered {isn : BitVec 32} {t : Tcb} {e : Event}
    {ids : List CallbackId} {turns : Prop} (hc : Controlled t) (h : Reading turns ids t) :
    step isn t e ≠ .error .readerWhileBuffered := by
  intro herror
  cases e with
  | process seg =>
      obtain ⟨-, ⟨-, hreaders, hdata⟩ | ⟨hf, -⟩⟩ :=
        (process_text_error (fun hsync => hc.pq_of_synchronized hsync) (.inl rfl)).mp herror
      · exact hdata (h.orderly.exclusive hreaders)
      · cases hf
  | call c => rcases appCall_error_cases herror with hf | hf <;> cases hf
  | task k calls => rcases task_error herror with hf | hf <;> cases hf

/-- **A pending reader excludes buffered data.**  For every run of a block over
segments, calls and handlers, any number of reads of any size outstanding, in
which no text is taken that is too long for the first of several readers: the
assertion of the text step does not fail; nobody waits while bytes are
buffered; what readers have got followed by the queue is the text taken, in
order; the reads served followed by those that wait are the reads issued; and
where handlers run in turn, the reads completed and those whose completion is
posted are the reads served. -/
theorem pending_reader_excludes_buffered {isn : BitVec 32} {t₀ : Tcb} {es : List Event}
    (hopened : Opened isn t₀)
    (hok : RunOk isn FitsFirstReader (fun _ _ => True) t₀ es) :
    run isn t₀ es ≠ .error .readerWhileBuffered ∧
    ∀ t, run isn t₀ es = .ok t →
      (t.onDataReceive ≠ [] → t.rcv.pq.data = []) ∧
      t.handed ++ t.rcv.pq.data = t.accepted ∧
      t.trace.copied.map (·.1) ++ t.onDataReceive.map (·.cb) = issued isn t₀ es ∧
      ((∀ e ∈ es, InTurn e) →
        t.readsCalled ++ readDones t.ioCtx = t.trace.copied.map fun c => (c.1, c.2.length)) := by
  refine ⟨?_, ?_⟩
  · refine EventSystem.run_avoids
      (P := fun s => Controlled s ∧ ∃ ids, Reading False ids s) ?_ ?_
      ⟨hopened.controlled, [], hopened.reading False⟩ hok
    · rintro s e s' ⟨hc, ids, h⟩ hoke hs
      exact ⟨step_controlled hc hs, _, h.step hoke False.elim hs⟩
    · rintro s e ⟨hc, ids, h⟩ -
      exact step_ne_readerWhileBuffered hc h
  · intro t hrun
    have h : Reading (∀ e ∈ es, InTurn e) (issued isn t₀ es) t := by
      refine EventSystem.run_history_reached
        (P := fun past s => Reading (∀ e ∈ past, InTurn e) (issued isn t₀ past) s)
        ?_ (hopened.reading _) hok hrun
      intro past s e s' hpast hs hoke hstep
      have hless : Reading (∀ e' ∈ past ++ [e], InTurn e') (issued isn t₀ past) s :=
        ⟨hs.orderly, fun hturns => hs.accounted fun e' he' =>
          hturns e' (List.mem_append_left _ he')⟩
      rw [issued_concat e hpast]
      exact hless.step hoke (fun hturns => hturns e (by simp)) hstep
    exact ⟨h.orderly.exclusive, h.orderly.stream, h.orderly.order, h.accounted⟩

/-- The handshake of a passive open, then two reads of two bytes. -/
def twoReadsWait : List Event :=
  [.process ⟨{ TcpHeader.bare with SYN := true, seqNo := 100, window := 500 }, [], []⟩,
    .process ⟨{ TcpHeader.bare with ACK := true, seqNo := 101, ackNo := 8 }, [], []⟩,
    .task 0 [.read 2 1, .read 2 2]]

/-- A segment of `text` at 101. -/
def textAt101 (text : List Byte) : Event :=
  .process ⟨{ TcpHeader.bare with ACK := true, seqNo := 101, ackNo := 8 }, [], text⟩

theorem short_text_for_two_readers :
    ∃ t, run 7 listening (twoReadsWait ++ [textAt101 [0x61, 0x62], .task 0 []]) = .ok t ∧
      t.trace.copied.map (·.1) ++ t.onDataReceive.map (·.cb) = [1, 2] ∧
      t.readsCalled ++ readDones t.ioCtx = [(1, 2)] := by
  have hok : RunOk 7 FitsFirstReader (fun _ _ => True) listening
      (twoReadsWait ++ [textAt101 [0x61, 0x62], .task 0 []]) := by
    refine .cons (fun _ _ _ hreaders => by cases hreaders) rfl ?_
    refine .cons (fun _ _ _ hreaders => by cases hreaders) rfl ?_
    refine .cons (fun _ _ _ => EventSystem.admitted_of_forall (fun _ _ => trivial) _ _) rfl ?_
    refine .cons (fun _ reader _ hreaders _ => ?_) rfl ?_
    · cases hreaders
      exact le_rfl
    · exact .single fun _ _ _ => trivial
  obtain ⟨-, h⟩ := pending_reader_excludes_buffered (opened_listening 7) hok
  obtain ⟨-, -, horder, hturns⟩ := h _ rfl
  refine ⟨_, rfl, horder, hturns ?_⟩
  intro e he
  simp only [twoReadsWait, textAt101, List.cons_append, List.nil_append, List.mem_cons,
    List.not_mem_nil, or_false] at he
  rcases he with rfl | rfl | rfl | rfl | rfl <;> trivial

/-- **Text that is too long for the first of two readers** leaves a byte in the
queue while the second reader waits; the next text trips the assertion. -/
theorem long_text_for_two_readers :
    (∃ t, run 7 listening (twoReadsWait ++ [textAt101 [0x61, 0x62, 0x63]]) = .ok t ∧
      t.onDataReceive ≠ [] ∧ t.rcv.pq.data ≠ []) ∧
    run 7 listening (twoReadsWait ++ [textAt101 [0x61, 0x62, 0x63],
      .process ⟨{ TcpHeader.bare with ACK := true, seqNo := 104, ackNo := 8 }, [], [0x64]⟩]) =
        .error .readerWhileBuffered :=
  ⟨⟨_, rfl, nofun, nofun⟩, rfl⟩

end Tcb

end Mstack
