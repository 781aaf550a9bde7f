import Mstack.Lib.Drain
import Mstack.Tcp.Mss
import Mstack.Tcp.SendLoop

/-!
# Everything written arrives

`Tcp.Integrity` says that nothing is lost on the way; that anything arrives is
another matter.  Two connected blocks that are left to themselves, with no
further call of the application, have deliveries and posted handlers to work
off.

`Tcb.work` counts what is left at a block, so that each of these makes it
smaller: a packet is worth one, and so is a byte that has not been sent, since
it may cost a packet; handlers and readers have a `Price`, which depends on
what the application does in its callbacks.  So the two blocks come to rest, in
whatever order deliveries and handlers are run.

At rest nothing is in a channel and no handler is posted.  The send loop stays
posted as long as there is something to send (`Flushing`), so nothing is unsent
either, and by `Intact` what has been written has arrived.

### Main result

`everything_written_arrives`.  Its hypotheses, beside those of `Tcp.Integrity`
on the events so far: the client has a send MSS, and there is `Room`, for the
numbers of what has been written and a window, below `2 ^ 32`.

### What is load-bearing

**Acknowledgements are not answered by acknowledgements**: this is where it is
proved.  A packet of the open connection makes no work at the block that takes
it, but for the completion of a read that waits (`work_of_process`), and the
reader that waited has been paid for.

The MSS of the client is a member that nothing initialises (`Tcp.Mss`).  With
an MSS of zero `has_app_data_to_send` is false, the send loop ends at once, and
what was written stays.
-/

namespace Mstack

open EventSystem (bind_eq_ok Admitted Drains AtRest)

/-- What a handler and a reader that waits may still produce.  `established` is
fixed, since the handshake has to pay for it. -/
structure Price where
  task : Task → ℕ
  reader : ℕ
  pos : ∀ h, 0 < task h
  established : task .connectionEstablished = 1

/-- The application makes no call in its callbacks.  A handler costs itself,
and the completion of a read the packet that follows it. -/
def Price.idle : Price where
  task := fun
    | .readDone _ _ => 2
    | .connectionEstablished | .writeDone _ _ | .sendLoop => 1
  reader := 2
  pos := fun h => by cases h <;> exact Nat.succ_pos _
  established := rfl

/-- What the rest of the handshake may still produce. -/
def TcpState.work : TcpState → ℕ
  | .listen | .synSent => 2
  | .synReceived => 1
  | _ => 0

namespace Tcb

/-- The work of the posted handlers. -/
def tasksWork (p : Price) (tasks : List Task) : ℕ := (tasks.map p.task).sum

/-- What is left to do at a block: the rest of the handshake, packets, unsent
bytes, handlers, and readers that wait. -/
def work (p : Price) (t : Tcb) : ℕ :=
  t.state.work + t.mngr.length + t.unsent.length + tasksWork p t.ioCtx +
    p.reader * t.onDataReceive.length

/-- **The block is going to send what it has.**  It has an MSS, unless it still
waits for a SYN; and where something is unsent, the send loop is posted. -/
structure Flushing (t : Tcb) : Prop where
  mss : t.state = .listen ∨ 0 < t.send.state.mss.toNat
  loop : t.unsent = [] ∨ .sendLoop ∈ t.ioCtx

@[simp] theorem tasksWork_append (p : Price) (tasks tasks' : List Task) :
    tasksWork p (tasks ++ tasks') = tasksWork p tasks + tasksWork p tasks' := by
  simp [tasksWork]

@[simp] theorem tasksWork_singleton (p : Price) (task : Task) : tasksWork p [task] = p.task task := by
  simp [tasksWork]

/-- A handler that is taken off the queue takes its work with it. -/
theorem tasksWork_eraseIdx (p : Price) {tasks : List Task} {k : ℕ} {task : Task}
    (hk : tasks[k]? = some task) :
    tasksWork p tasks = p.task task + tasksWork p (tasks.eraseIdx k) := by
  obtain ⟨hlt, rfl⟩ := List.getElem?_eq_some_iff.mp hk
  have hperm := (List.getElem_cons_eraseIdx_perm hlt).map p.task
  exact hperm.sum_eq.symm

/-- Another handler is still posted. -/
theorem mem_eraseIdx_of_ne {tasks : List Task} {k : ℕ} {task other : Task}
    (hk : tasks[k]? = some task) (hmem : other ∈ tasks) (hne : other ≠ task) :
    other ∈ tasks.eraseIdx k := by
  obtain ⟨hlt, rfl⟩ := List.getElem?_eq_some_iff.mp hk
  have hperm := List.getElem_cons_eraseIdx_perm hlt
  exact (List.mem_cons.mp (hperm.mem_iff.mpr hmem)).resolve_left hne

/-! ## Sending

The send loop leaves nothing unsent. -/

section Sending

variable {base base' : BitVec 32} {ws : SendWindow Byte} {wr : ReceiveWindow Byte} {t t' : Tcb}
  {pq : CircularBuffer Byte}

/-- A packet takes its text from what is unsent. -/
theorem Sends.unsent_afterPacket (h : Sends base ws t) (hpq : t.send.pq = some pq) :
    (t.afterPacket pq).unsent = t.unsent.drop (t.appDataToSendLeft pq) := by
  rw [(h.afterPacket hpq).unsent_eq, h.unsent_eq]
  exact List.drop_drop.symm

/-- What is in flight is part of the queue. -/
theorem Sends.ahead_le (h : Sends base ws t) (hpq : t.send.pq = some pq) : t.ahead ≤ pq.size := by
  rw [ahead, h.inFlight_eq, CircularBuffer.size_eq, h.data_eq hpq]
  exact ws.inFlight_le_queue

/-- **The send loop sends everything**, and not more packets than bytes. -/
theorem Sends.sendLoop_flushes (h : Sends base ws t) (hmss : 0 < t.send.state.mss.toNat)
    (hloop : t.sendLoop = .ok t') :
    t'.unsent = [] ∧ t'.mngr.length ≤ t.mngr.length + t.unsent.length := by
  obtain ⟨pq, hpq, hdata, hcapacity⟩ := h.queue
  have hsize : pq.size < 2 ^ 32 := lt_of_le_of_lt pq.size_le hcapacity
  have hahead := h.ahead_le hpq
  obtain ⟨u, pkts, hrun, hmngr, hpq', -, hall, hcuts⟩ :=
    sendLoopFuel_cuts hsize (pq.size - t.ahead) hpq hmss hahead rfl
  have hlength := hcuts.length_le hmss
  have hbytes : pq.data.drop t.ahead = t.unsent := by
    rw [h.unsent_eq, hdata, ahead, h.inFlight_eq, ws.queue_drop_inFlight]
  have hfuel : pkts.length < pq.size + 1 := by
    rw [List.length_drop, ← CircularBuffer.size_eq] at hlength
    omega
  rw [sendLoop_eq hpq, hrun _ hfuel] at hloop
  cases hloop
  constructor
  · rw [unsent, hpq']
    refine List.drop_eq_nil_of_le ?_
    rw [← CircularBuffer.size_eq, appDataUnacknowleged, ← ahead, hall, Nat.min_self]
  · rw [hmngr, List.length_append]
    rw [hbytes] at hlength
    omega

/-- Where nothing is unsent, a packet leaves nothing unsent. -/
theorem unsent_afterPacket_of_nil (hpq : t.send.pq = some pq) (hnil : t.unsent = []) :
    (t.afterPacket pq).unsent = [] := by
  have hdrop : pq.data.drop (t.appDataUnacknowleged pq) = [] := by
    rw [unsent, hpq] at hnil
    exact hnil
  have hnone : t.appDataToSendLeft pq = 0 := by
    have hle := t.appDataToSendLeft_le pq
    have hlen := List.drop_eq_nil_iff.mp hdrop
    rw [← CircularBuffer.size_eq] at hlen
    omega
  have hsame : (t.afterPacket pq).appDataUnacknowleged pq = t.appDataUnacknowleged pq := by
    rw [appDataUnacknowleged, afterPacket_next, afterPacket_unack, hnone]
    exact congrArg (fun n => min pq.size (n - t.send.state.seqNrUnack).toNat) (BitVec.add_zero _)
  rw [unsent, afterPacket_pq, hpq]
  show pq.data.drop ((t.afterPacket pq).appDataUnacknowleged pq) = []
  rw [hsame]
  exact hdrop

end Sending

/-! ## Local events

Each handler is cheaper than its price. -/

section Local

variable {isn base base' : BitVec 32} {ws : SendWindow Byte} {wr : ReceiveWindow Byte} {t t' : Tcb}

theorem Flushing.appCall {c : AppCall} (h : Flushing t) (hlisten : t.state ≠ .listen)
    (hcall : t.appCall c = .ok t') : Flushing t' ∧ t'.state = t.state := by
  have hmss := h.mss.resolve_left hlisten
  cases appCall_cases hcall with
  | waits size cb _ => exact ⟨⟨h.mss, h.loop⟩, rfl⟩
  | reads size cb _ => exact ⟨⟨h.mss, h.loop.imp_right (List.mem_append_left _)⟩, rfl⟩
  | writes buf cb pq _ _ => exact ⟨⟨.inr hmss, .inr (by simp [afterWrite])⟩, rfl⟩

theorem Flushing.appCalls {calls : List AppCall} (h : Flushing t) (hlisten : t.state ≠ .listen)
    (hcalls : t.appCalls calls = .ok t') : Flushing t' := by
  refine (appCalls_induction (P := fun u => Flushing u ∧ u.state = t.state) ?_ ⟨h, rfl⟩ hcalls).1
  rintro u c u' ⟨hu, hstate⟩ hcall
  obtain ⟨hu', hstate'⟩ := hu.appCall (hstate ▸ hlisten) hcall
  exact ⟨hu', hstate'.trans hstate⟩

/-- Taking another handler off the queue leaves the send loop posted. -/
theorem Flushing.enterTask {k : ℕ} {task : Task} (h : Flushing t) (hk : t.ioCtx[k]? = some task)
    (hne : task ≠ .sendLoop) : Flushing (t.enterTask k task) := by
  rw [enterTask_eq]
  exact ⟨h.mss, h.loop.imp_right fun hmem => mem_eraseIdx_of_ne hk hmem hne.symm⟩

theorem Flushing.afterPacket {pq : CircularBuffer Byte} (h : Flushing t)
    (hlisten : t.state ≠ .listen) (hpq : t.send.pq = some pq) : Flushing (t.afterPacket pq) :=
  ⟨.inr (h.mss.resolve_left hlisten), h.loop.imp_left (unsent_afterPacket_of_nil hpq)⟩

/-- **An event at one side.**  A write posts the send loop; the send loop
leaves nothing unsent; no other handler takes the send loop off the queue. -/
theorem Side.step_flushing {e : Event} (hside : Side base base' ws wr t) (h : Flushing t)
    (hok : LocalOk t e) (hstep : step isn t e = .ok t') : Flushing t' := by
  have hlisten : t.state ≠ .listen := by rw [hside.established]; decide
  have hmss := h.mss.resolve_left hlisten
  cases e with
  | process seg => exact hok.elim
  | call c => exact (h.appCall hlisten hstep).1
  | task k calls =>
      cases hk : t.ioCtx[k]? with
      | none =>
          rw [step_task_none calls hk] at hstep
          cases hstep
          exact h
      | some task =>
          rw [step_task_some calls hk] at hstep
          have hlisten' : (t.enterTask k task).state ≠ .listen := by
            rw [enterTask_state]
            exact hlisten
          cases task with
          | connectionEstablished => exact (h.enterTask hk (by decide)).appCalls hlisten' hstep
          | writeDone cb len =>
              exact (h.enterTask hk (fun heq => by cases heq)).appCalls hlisten' hstep
          | readDone cb len =>
              obtain ⟨u, hu, hsend⟩ := bind_eq_ok.mp hstep
              obtain ⟨pq, hpq, rfl⟩ := makeAndSendPkt_ok.mp hsend
              have hflush := (h.enterTask hk (fun heq => by cases heq)).appCalls hlisten' hu
              have hstate : u.state = t.state := by
                refine appCalls_induction (P := fun v => v.state = t.state) ?_ (by simp) hu
                intro v c v' hv hcall
                cases appCall_cases hcall <;> exact hv
              exact hflush.afterPacket (hstate ▸ hlisten) hpq
          | sendLoop =>
              have hstep' : step isn t (.task k calls) = .ok t' :=
                (step_task_some calls hk).trans hstep
              have hmss' := step_mss hok hstep'
              obtain ⟨hunsent, -⟩ := (hside.enterTask k .sendLoop).sends.sendLoop_flushes
                (by rw [enterTask_send]; exact hmss) hstep
              exact ⟨.inr (hmss' ▸ hmss), .inl hunsent⟩

/-- A handler that makes no call. -/
def Posted (t : Tcb) : Event → Prop
  | .task k calls => k < t.ioCtx.length ∧ calls = []
  | _ => False

/-- Such an event is admissible. -/
theorem Posted.localOk {e : Event} (h : Posted t e) : LocalOk t e := by
  cases e with
  | process seg => exact h.elim
  | call c => exact h.elim
  | task k calls =>
      obtain ⟨-, rfl⟩ := h
      exact fun _ _ _ => trivial

theorem Side.nextState_state (hside : Side base base' ws wr t) : t.nextState = t.state := by
  rw [hside.nextState_eq hside.established rfl, hside.established]

/-- What a handler costs is taken off with it. -/
theorem Side.work_enterTask (p : Price) {k : ℕ} {task : Task} (hside : Side base base' ws wr t)
    (hk : t.ioCtx[k]? = some task) : t.work p = p.task task + (t.enterTask k task).work p := by
  have htasks := tasksWork_eraseIdx p hk
  have hunsent : (t.enterTask k task).unsent = t.unsent := by
    rw [(hside.enterTask k task).sends.unsent_eq, hside.sends.unsent_eq]
  simp only [work, hunsent, enterTask_state, enterTask_mngr, enterTask_ioCtx,
    enterTask_onDataReceive]
  omega

/-- A packet costs one. -/
theorem Sends.work_afterPacket (p : Price) {pq : CircularBuffer Byte} (h : Sends base ws t)
    (hnext : t.nextState = t.state) (hpq : t.send.pq = some pq) :
    (t.afterPacket pq).work p ≤ t.work p + 1 := by
  have hsent := congrArg List.length (h.unsent_afterPacket hpq)
  rw [List.length_drop] at hsent
  simp only [work, afterPacket_state, hnext, afterPacket_mngr, List.length_append,
    List.length_singleton, afterPacket_ioCtx, afterPacket_onDataReceive]
  omega

/-- The send loop turns what is unsent into packets. -/
theorem Side.work_sendLoop (p : Price) (hside : Side base base' ws wr t)
    (hmss : 0 < t.send.state.mss.toNat) (hloop : t.sendLoop = .ok t') : t'.work p ≤ t.work p := by
  obtain ⟨hnil, hlength⟩ := hside.sends.sendLoop_flushes hmss hloop
  have hsame : t'.ioCtx = t.ioCtx ∧ t'.onDataReceive = t.onDataReceive ∧
      t'.state = .established ∧ t'.nextState = .established := by
    refine sendLoop_preserves (P := fun u => u.ioCtx = t.ioCtx ∧
      u.onDataReceive = t.onDataReceive ∧ u.state = .established ∧
      u.nextState = .established) ?_ ?_ hloop
    · rintro u pq ⟨hio, hreaders, -, hnext⟩ -
      exact ⟨hio, hreaders, hnext, hnext⟩
    · exact ⟨rfl, rfl, hside.established, hside.nextState_eq hside.established rfl⟩
  obtain ⟨hio, hreaders, hstate, -⟩ := hsame
  simp only [work, hnil, hio, hreaders, hstate, hside.established, List.length_nil]
  omega

/-- **A posted handler makes the work less.**  Its price is gone.  The
completion of a read has left one packet for it, and the send loop has turned
bytes into packets, at most one for each byte. -/
theorem Side.work_lt {e : Event} (hside : Side base base' ws wr t) (h : Flushing t)
    (hposted : Posted t e) (hstep : step isn t e = .ok t') : t'.work .idle < t.work .idle := by
  cases e with
  | process seg => exact hposted.elim
  | call c => exact hposted.elim
  | task k calls =>
      obtain ⟨hk, rfl⟩ := hposted
      have hk' := List.getElem?_eq_getElem hk
      generalize t.ioCtx[k] = task at hk'
      rw [step_task_some [] hk'] at hstep
      have hentered := hside.enterTask k task
      have hwork := hside.work_enterTask .idle hk'
      have hpos := Price.idle.pos task
      cases task with
      | connectionEstablished =>
          obtain rfl := Except.ok.inj hstep
          omega
      | writeDone cb len =>
          obtain rfl := Except.ok.inj hstep
          omega
      | readDone cb len =>
          -- The packet that follows the completion.
          obtain ⟨pq, hpq, rfl⟩ := makeAndSendPkt_ok.mp hstep
          have hpacket := hentered.sends.work_afterPacket .idle hentered.nextState_state hpq
          have hprice : Price.idle.task (.readDone cb len) = 2 := rfl
          omega
      | sendLoop =>
          have hlisten : t.state ≠ .listen := by rw [hside.established]; decide
          have hloop := hentered.work_sendLoop .idle
            (by rw [enterTask_send]; exact h.mss.resolve_left hlisten) hstep
          omega

end Local

/-! ## Segments

What arrives adds at the end, and keeps the loop posted. -/

section Segments

variable {isn base base' : BitVec 32} {ws : SendWindow Byte} {wr : ReceiveWindow Byte} {t t' : Tcb}
  {seg : Segment}

/-- What an arriving segment never touches, and what it only adds to. -/
structure Keeps (t t' : Tcb) : Prop where
  written : t'.written = t.written
  mngr : t.mngr <+: t'.mngr
  ioCtx : t.ioCtx <+: t'.ioCtx

theorem Keeps.refl (t : Tcb) : Keeps t t := ⟨rfl, List.prefix_rfl, List.prefix_rfl⟩

theorem Keeps.trans {u v : Tcb} (h : Keeps t u) (h' : Keeps u v) : Keeps t v :=
  ⟨h'.written.trans h.written, h.mngr.trans h'.mngr, h.ioCtx.trans h'.ioCtx⟩

theorem Keeps.of_eq (hwritten : t'.trace.written = t.trace.written) (hmngr : t'.mngr = t.mngr)
    (hio : t'.ioCtx = t.ioCtx) : Keeps t t' :=
  ⟨by rw [Tcb.written, hwritten, Tcb.written], hmngr ▸ List.prefix_rfl, hio ▸ List.prefix_rfl⟩

theorem Keeps.afterPacket (t : Tcb) (pq : CircularBuffer Byte) : Keeps t (t.afterPacket pq) :=
  ⟨rfl, List.prefix_append _ _, List.prefix_rfl⟩

theorem AckOutcome.keeps {flow : Flow} (h : AckOutcome t seg flow) : Keeps t flow.block := by
  cases h with
  | accepted _ _ _ _ => exact ⟨rfl, List.prefix_rfl, List.prefix_append _ _⟩
  | data _ _ pq _ _ =>
      obtain ⟨n, hn⟩ := (t.ackData pq seg.tcph.ackNo).ackNextState_eq
      rw [hn]
      exact .of_eq rfl rfl rfl
  | unsent _ _ pq pq' _ _ _ =>
      exact Keeps.trans (u := t.ackData pq seg.tcph.ackNo) (.of_eq rfl rfl rfl) (.afterPacket _ pq')
  | timeWait _ _ pq _ => exact .afterPacket t pq
  | _ => exact .of_eq rfl rfl rfl

theorem TextOutcome.keeps (h : TextOutcome t seg t') : Keeps t t' := by
  cases h with
  | delivered _ _ _ _ _ => exact ⟨rfl, List.prefix_rfl, List.prefix_append _ _⟩
  | _ => exact .of_eq rfl rfl rfl

theorem FinOutcome.keeps (h : FinOutcome t seg t') : Keeps t t' := by
  cases h with
  | closed _ _ pq _ => exact ⟨rfl, List.prefix_append _ _, List.prefix_rfl⟩
  | _ => exact .of_eq rfl rfl rfl

theorem process_keeps (h : t.process isn seg = .ok t') : Keeps t t' := by
  cases process_cases h with
  | unchanged _ => exact .refl t
  | passiveOpen _ _ _ _ _ _ => exact ⟨rfl, List.prefix_append _ _, List.prefix_rfl⟩
  | activeOpen _ _ _ _ _ _ _ =>
      exact ⟨rfl, List.prefix_append _ _, List.prefix_append _ _⟩
  | returned _ _ hack => exact hack.keeps
  | continued _ _ hack htext hfin => exact (hack.keeps.trans htext.keeps).trans hfin.keeps

/-- **A segment at an open block** posts nothing but the completion of a read
that waits, with at least one byte if there is room for one. -/
theorem Open.process_tasks (h : Open t) (hprocess : t.process isn seg = .ok t') :
    (t'.ioCtx = t.ioCtx ∧ t'.onDataReceive = t.onDataReceive ∧ t'.handed = t.handed) ∨
      ∃ reader readers n, t.onDataReceive = reader :: readers ∧ t'.onDataReceive = readers ∧
        t'.ioCtx = t.ioCtx ++ [.readDone reader.cb n] ∧
        t'.handed.length = t.handed.length + n ∧ (0 < reader.size → 0 < n) := by
  have hsame {u u' : Tcb} (hinbox : u'.inbox = u.inbox) :
      u'.onDataReceive = u.onDataReceive ∧ u'.handed = u.handed := by
    have hcopied : u'.trace.copied = u.trace.copied := congrArg Inbox.copied hinbox
    exact ⟨congrArg Inbox.readers hinbox, by rw [handed, hcopied, handed]⟩
  -- The ACK step of an open block posts nothing.
  have hack {flow : Flow} (hflow : AckOutcome t seg flow) : flow.block.ioCtx = t.ioCtx := by
    cases hflow with
    | accepted _ hstate _ _ => exact (h.ne_synReceived hstate).elim
    | data _ _ pq _ _ =>
        obtain ⟨n, hn⟩ := (t.ackData pq seg.tcph.ackNo).ackNextState_eq
        rw [hn]
        rfl
    | _ => rfl
  rcases h.process_cases hprocess with ⟨-, rfl⟩ | ⟨-, hret⟩ | ⟨-, t₁, t₂, hnext, htext, hfin⟩
  · exact .inl ⟨rfl, rfl, rfl⟩
  · exact .inl ⟨hack hret, hsame hret.inbox_eq⟩
  · have hio₁ : t₁.ioCtx = t.ioCtx := hack hnext
    have hinbox₁ : t₁.inbox = t.inbox := hnext.inbox_eq
    obtain ⟨hreaders₁, hhanded₁⟩ := hsame hinbox₁
    obtain ⟨hreaders₂, hhanded₂⟩ := hsame hfin.inbox_eq
    have hio₂ : t'.ioCtx = t₂.ioCtx := by cases hfin <;> rfl
    cases htext with
    | ignored _ =>
        exact .inl ⟨hio₂.trans hio₁, hreaders₂.trans hreaders₁, hhanded₂.trans hhanded₁⟩
    | appended _ _ _ =>
        exact .inl ⟨hio₂.trans hio₁, hreaders₂.trans hreaders₁, hhanded₂.trans hhanded₁⟩
    | delivered hyes reader readers hreaders _ =>
        have htext : 0 < seg.text.length := by
          rw [acceptsText, Bool.and_eq_true, Bool.and_eq_true, decide_eq_true_eq] at hyes
          exact hyes.1.1
        -- A reader got what fits its span, and its completion is posted.
        refine .inr ⟨reader, readers, min seg.text.length reader.size,
          hreaders₁.symm.trans hreaders, hreaders₂, ?_, ?_, fun hsize => lt_min htext hsize⟩
        · rw [hio₂, ← hio₁]
          rfl
        · rw [hhanded₂, ← hhanded₁]
          simp [handed, afterDelivery]

/-- **An arriving segment leaves the block flushing**, if it leaves nothing
unsent that was sent. -/
theorem Flushing.process (h : Flushing t) (hoffers : t.OffersMss seg)
    (hprocess : t.process isn seg = .ok t') (hunsent : t.unsent = [] → t'.unsent = []) :
    Flushing t' := by
  refine ⟨?_, ?_⟩
  · rcases process_mss hoffers hprocess with rfl | ⟨hlisten, hsame⟩ | ⟨-, hset⟩
    · exact h.mss
    · exact .inr (hsame ▸ h.mss.resolve_left hlisten)
    · exact .inr (by rw [hset]; decide)
  · exact h.loop.imp hunsent fun hmem => (process_keeps hprocess).ioCtx.subset hmem

end Segments

end Tcb

namespace Duplex

open Tcb

/-- What is left to do at both ends and in both channels. -/
def work (d : Duplex) : ℕ := d.client.work .idle + d.server.work .idle

/-- A packet that can be delivered, or a handler that can run and makes no
call. -/
def Ready (d : Duplex) : Event → Prop
  | .toServer => d.client.mngr ≠ []
  | .toClient => d.server.mngr ≠ []
  | .client e => Posted d.client e
  | .server e => Posted d.server e

/-- **What the two blocks need to come to rest with nothing left behind**: they
are in one of the phases, and each is going to send what it has. -/
structure Flowing (isnA isnB : BitVec 32) (d : Duplex) : Prop where
  phase : Phase isnA isnB d
  client : Flushing d.client
  server : Flushing d.server

section Flowing

variable {isnA isnB : BitVec 32} {d d' : Duplex}

theorem Connecting.flowing (h : Connecting isnA d) (hmss : d.client.send.state.mss ≠ 0)
    (isnB : BitVec 32) : Flowing isnA isnB d := by
  refine ⟨h.phase isnB, ?_, ?_⟩
  all_goals
    obtain ⟨remoteEp, localEp, remoteEp', localEp', junkSend, junkSend', junkRcv, junkRcv', h⟩ := h
    rw [startConnecting_eq] at h
    cases h
  · refine ⟨.inr (Nat.pos_of_ne_zero fun hzero => hmss (BitVec.eq_of_toNat_eq hzero)), .inl rfl⟩
  · exact ⟨.inl rfl, .inl rfl⟩

/-- Nothing unsent comes back: what a segment leaves unsent was unsent before. -/
theorem Intact.unsent_of_process {isn : BitVec 32} {s r r' : Tcb} {seg : Segment}
    {rest : List TcpPacket} (hbefore : Intact r s) (hafter : Intact r' { s with mngr := rest })
    (hprocess : r.process isn seg = .ok r') :
    ∃ new, r'.mngr = r.mngr ++ new ∧ payload new ++ r'.unsent = r.unsent := by
  obtain ⟨hwritten, ⟨new, hmngr⟩, -⟩ := process_keeps hprocess
  refine ⟨new, hmngr.symm, ?_⟩
  have hsame : s.handed ++ s.rcv.pq.data ++ payload r'.mngr ++ r'.unsent =
      s.handed ++ s.rcv.pq.data ++ payload r.mngr ++ r.unsent :=
    hafter.trans (hwritten.trans hbefore.symm)
  rw [← hmngr, payload_append] at hsame
  simpa only [List.append_assoc, List.append_cancel_left_eq] using hsame

/-- During the handshake a block has not been handed to the application; after
it, it is a side. -/
theorem Phase.client_cases (h : Phase isnA isnB d) :
    Quiet d.client ∨ ∃ ws wr, Side (isnA + 1) (isnB + 1) ws wr d.client := by
  cases h with
  | syn hclient _ _ _ _ _ _ => exact .inl hclient.toQuiet
  | synAck hclient _ _ _ _ _ => exact .inl hclient.toQuiet
  | ack hclient _ _ _ _ _ _ _ _ => exact .inr ⟨_, _, hclient⟩
  | opened hclient _ _ _ => exact .inr ⟨_, _, hclient⟩

theorem Phase.server_cases (h : Phase isnA isnB d) :
    Quiet d.server ∨ ∃ ws wr, Side (isnB + 1) (isnA + 1) ws wr d.server := by
  cases h with
  | syn _ _ _ hserver _ _ _ => exact .inl hserver
  | synAck _ _ hserver _ _ _ => exact .inl hserver.toQuiet
  | ack _ _ _ _ _ _ _ hserver _ => exact .inl hserver.toQuiet
  | opened _ hserver _ _ => exact .inr ⟨_, _, hserver⟩

/-- **One event keeps the two blocks flowing, and does not abort.**  A segment
leaves nothing unsent that was sent before, since both blocks stay intact
(`Intact.unsent_of_process`). -/
theorem Flowing.step {e : Event} (h : Flowing isnA isnB d) (hok : EventOk d e) :
    ∃ d', step isnB d e = .ok d' ∧ Flowing isnA isnB d' := by
  obtain ⟨d', hstep, hphase⟩ := h.phase.step hok
  refine ⟨d', hstep, ?_⟩
  cases e with
  | client e =>
      obtain ⟨t, ht, hd'⟩ := bind_eq_ok.mp hstep
      cases hd'
      refine ⟨hphase, ?_, h.server⟩
      -- A quiet block ignores its own events; an open one keeps its loop going.
      rcases h.phase.client_cases with hquiet | ⟨ws, wr, hside⟩
      · rw [hquiet.step hok.2.2] at ht
        cases ht
        exact h.client
      · exact hside.step_flushing h.client hok.2.2 ht
  | server e =>
      obtain ⟨t, ht, hd'⟩ := bind_eq_ok.mp hstep
      cases hd'
      refine ⟨hphase, h.client, ?_⟩
      rcases h.phase.server_cases with hquiet | ⟨ws, wr, hside⟩
      · rw [hquiet.step hok.2.2] at ht
        cases ht
        exact h.server
      · exact hside.step_flushing h.server hok.2.2 ht
  | toServer =>
      cases hmngr : d.client.mngr with
      | nil =>
          rw [step_toServer_nil hmngr] at hstep
          cases hstep
          exact h
      | cons pkt rest =>
          simp only [Duplex.step, hmngr] at hstep
          obtain ⟨t, ht, hd'⟩ := bind_eq_ok.mp hstep
          cases hd'
          -- The unsent bytes can only have become fewer.
          obtain ⟨new, -, hnew⟩ := Intact.unsent_of_process h.phase.intact.2 hphase.intact.2 ht
          refine ⟨hphase, ⟨h.client.mss, h.client.loop⟩,
            h.server.process (h.phase.offers_toServer hmngr) ht fun hnil => ?_⟩
          exact (List.append_eq_nil_iff.mp (hnew.trans hnil)).2
  | toClient =>
      cases hmngr : d.server.mngr with
      | nil =>
          rw [step_toClient_nil hmngr] at hstep
          cases hstep
          exact h
      | cons pkt rest =>
          simp only [Duplex.step, hmngr] at hstep
          obtain ⟨t, ht, hd'⟩ := bind_eq_ok.mp hstep
          cases hd'
          obtain ⟨new, -, hnew⟩ := Intact.unsent_of_process h.phase.intact.1 hphase.intact.1 ht
          refine ⟨hphase, h.client.process (h.phase.offers_toClient hmngr) ht fun hnil => ?_,
            ⟨h.server.mss, h.server.loop⟩⟩
          exact (List.append_eq_nil_iff.mp (hnew.trans hnil)).2

/-! ## Work

Deliveries make the work less as well. -/

theorem work_of_quiet (p : Price) {t : Tcb} (h : Quiet t) (hunsent : t.unsent = []) :
    t.work p = t.state.work + t.mngr.length := by
  simp [Tcb.work, tasksWork, hunsent, h.ioCtx, h.readers]

/-- A block that is not yet open has posted nothing. -/
theorem not_posted_of_quiet {t : Tcb} {e : Mstack.Event} (h : Quiet t) : ¬ Posted t e := by
  intro hposted
  cases e with
  | process seg => exact hposted
  | call c => exact hposted
  | task k calls =>
      have hlt := hposted.1
      rw [h.ioCtx] at hlt
      exact Nat.not_lt_zero _ hlt

theorem work_of_fresh (p : Price) {base base' : BitVec 32} {t : Tcb} (h : Fresh base base' t) :
    t.work p = t.mngr.length + 1 := by
  simp [Tcb.work, h.pq.unsent_eq, h.posted, h.readers, h.state, p.established, TcpState.work]

/-- The completion of a read that waits costs what the reader did, and `b` for
each byte. -/
def Covers (p : Price) (b : ℕ) (t : Tcb) : Prop := ∀ reader ∈ t.onDataReceive, ∀ n,
  (0 < reader.size → 0 < n) → p.task (.readDone reader.cb n) ≤ p.reader + b * n

theorem covers_idle (t : Tcb) : Covers .idle 0 t := fun _ _ _ _ => Nat.le_add_right _ _

/-- **A packet of the open connection** makes no work at the block that takes
it, but for the bytes that it hands to a read. -/
theorem work_of_process {p : Price} {b : ℕ} {isn base base' : BitVec 32} {ws ws' : SendWindow Byte}
    {wr wr' : ReceiveWindow Byte} {r r' : Tcb} {seg : Segment} (hr : Side base base' ws wr r)
    (hr' : Side base base' ws' wr' r') (hmngr : r'.mngr = r.mngr) (hunsent : r'.unsent = r.unsent)
    (hcovers : Covers p b r) (hprocess : r.process isn seg = .ok r') :
    r'.work p + b * r.handed.length ≤ r.work p + b * r'.handed.length := by
  rcases hr.toOpen.process_tasks hprocess with ⟨hio, hreaders, hhanded⟩ | ⟨reader, readers, n,
    hbefore, hafter, hio, hhanded, hsize⟩
  · simp only [Tcb.work, hr.established, hr'.established, hmngr, hunsent, hio, hreaders, hhanded,
      le_refl]
  · have hprice := hcovers reader (hbefore ▸ List.mem_cons_self) n hsize
    simp only [Tcb.work, hr.established, hr'.established, hmngr, hunsent, hio, hbefore, hafter,
      tasksWork_append, tasksWork_singleton, List.length_cons, hhanded, Nat.mul_add, Nat.mul_one]
    omega

/-- Taking a packet out of a channel. -/
theorem work_of_cons (p : Price) {t : Tcb} {pkt : TcpPacket} {rest : List TcpPacket}
    (hmngr : t.mngr = pkt :: rest) : t.work p = ({ t with mngr := rest } : Tcb).work p + 1 := by
  have hunsent : ({ t with mngr := rest } : Tcb).unsent = t.unsent := rfl
  simp only [Tcb.work, hmngr, hunsent, List.length_cons]
  omega

/-- **A packet for the server.**  The handshake is paid for by the states it
leaves: the SYN-ACK by LISTEN, the connection callback by SYN-RECEIVED.  A
packet of the open connection is answered by nothing. -/
theorem Phase.work_toServer {p : Price} {b : ℕ} {pkt : TcpPacket} {rest : List TcpPacket} {t : Tcb}
    (h : Phase isnA isnB d) (hmngr : d.client.mngr = pkt :: rest) (hA : Bounded d.client)
    (hB : Bounded d.server) (hcovers : Covers p b d.server)
    (ht : d.server.process isnB pkt.skb = .ok t)
    (hphase : Phase isnA isnB ⟨{ d.client with mngr := rest }, t⟩) :
    t.work p + b * d.server.handed.length ≤ d.server.work p + b * t.handed.length := by
  obtain ⟨new, hnew, hunsent⟩ := Intact.unsent_of_process h.intact.2 hphase.intact.2 ht
  -- During the handshake nothing has been read.
  have hquiet (hserver : Quiet d.server) (hle : t.work p ≤ d.server.work p) :
      t.work p + b * d.server.handed.length ≤ d.server.work p + b * t.handed.length := by
    rw [(List.append_eq_nil_iff.mp hserver.received).1]
    exact hle.trans (Nat.le_add_right _ _)
  cases h with
  | syn hclient hsyn hs hserver hstate hpq hmngr' =>
      -- The SYN makes a SYN-ACK.
      refine hquiet hserver ?_
      obtain ⟨rfl, rfl⟩ := List.cons_eq_cons.mp (hsyn.symm.trans hmngr)
      obtain ⟨u, pkt', hu, hreceived, hsent, -, -⟩ := process_syn_quiet isnA isnB hserver hstate hs
      obtain rfl := Except.ok.inj (ht.symm.trans hu)
      rw [work_of_quiet p hreceived.toQuiet hreceived.pq.unsent_eq, work_of_quiet p hserver (by
        rw [unsent, hpq]), hreceived.state, hstate, hsent, hmngr']
      exact le_rfl
  | synAck hclient hnil _ _ _ _ => cases hnil.symm.trans hmngr
  | ack hclient hout hacked hstream hmngr₁ hpkt hSYN hserver hmngr' =>
      -- The ACK posts the connection callback.
      refine hquiet hserver.toQuiet ?_
      obtain ⟨rfl, rfl⟩ := List.cons_eq_cons.mp (hmngr₁.symm.trans hmngr)
      have hprocess := process_ack_received isnB hserver hpkt hSYN
      split at hprocess
      · rename_i hcond
        obtain rfl := Except.ok.inj (ht.symm.trans hprocess)
        rw [work_of_fresh p (hserver.ackSyn hcond.2), work_of_quiet p hserver.toQuiet
          hserver.pq.unsent_eq, hserver.state]
        exact (Nat.add_comm _ _).le
      · exact (congrArg (Tcb.work p) (Except.ok.inj (ht.symm.trans hprocess))).le
  | opened hclient hserver hout hback =>
      obtain ⟨u, ws', wr', hu, hside, -, -, hsame, -⟩ :=
        hclient.deliver isnB hserver hout hback hA hB hmngr
      obtain rfl := Except.ok.inj (ht.symm.trans hu)
      obtain rfl := List.append_right_eq_self.mp (hnew.symm.trans hsame)
      exact work_of_process hserver hside hsame hunsent hcovers ht

/-- **A packet for the client.**  The ACK and the connection callback are paid
for by SYN-SENT, the state that the client leaves. -/
theorem Phase.work_toClient {p : Price} {b : ℕ} {pkt : TcpPacket} {rest : List TcpPacket} {t : Tcb}
    (h : Phase isnA isnB d) (hmngr : d.server.mngr = pkt :: rest) (hA : Bounded d.client)
    (hB : Bounded d.server) (hcovers : Covers p b d.client)
    (ht : d.client.process isnB pkt.skb = .ok t)
    (hphase : Phase isnA isnB ⟨t, { d.server with mngr := rest }⟩) :
    t.work p + b * d.client.handed.length ≤ d.client.work p + b * t.handed.length := by
  obtain ⟨new, hnew, hunsent⟩ := Intact.unsent_of_process h.intact.1 hphase.intact.1 ht
  cases h with
  | syn _ _ _ _ _ _ hnil => cases hnil.symm.trans hmngr
  | synAck hclient hnil hserver hmngr₁ hpkt hSYN =>
      -- The SYN-ACK makes an ACK and posts the connection callback; nothing has been read.
      obtain ⟨rfl, rfl⟩ := List.cons_eq_cons.mp (hmngr₁.symm.trans hmngr)
      rw [(List.append_eq_nil_iff.mp hclient.toQuiet.received).1]
      refine le_trans ?_ (Nat.le_add_right _ _)
      have hwork := work_of_quiet p hclient.toQuiet (by rw [unsent, hclient.pq])
      by_cases hwrap : isnA ≤ isnA + 1
      · obtain ⟨u, pkt', hu, hfresh, hsent, -, -⟩ :=
          process_synAck_sent isnB hclient hpkt hSYN hwrap
        obtain rfl := Except.ok.inj (ht.symm.trans hu)
        rw [work_of_fresh p hfresh, hwork, hclient.state, hsent, hnil]
        exact le_rfl
      · have hrefused : Tcb.process isnB _ _ = .ok _ :=
          process_synAck_refused hclient hpkt hSYN hwrap
        exact (congrArg (Tcb.work p) (Except.ok.inj (ht.symm.trans hrefused))).le
  | ack _ _ _ _ _ _ _ _ hnil => cases hnil.symm.trans hmngr
  | opened hclient hserver hout hback =>
      obtain ⟨u, ws', wr', hu, hside, -, -, hsame, -⟩ :=
        hserver.deliver isnB hclient hback hout hB hA hmngr
      obtain rfl := Except.ok.inj (ht.symm.trans hu)
      obtain rfl := List.append_right_eq_self.mp (hnew.symm.trans hsame)
      exact work_of_process hclient hside hsame hunsent hcovers ht

/-- **Whatever is ready makes the work less**, at both ends and in both
channels. -/
theorem Flowing.work_lt {e : Event} (h : Flowing isnA isnB d) (hready : Ready d e)
    (hA : Bounded d.client) (hB : Bounded d.server) (hstep : Duplex.step isnB d e = .ok d')
    (hphase : Phase isnA isnB d') : d'.work < d.work := by
  cases e with
  | client e =>
      obtain ⟨t, ht, hd'⟩ := bind_eq_ok.mp hstep
      cases hd'
      rcases h.phase.client_cases with hquiet | ⟨ws, wr, hside⟩
      · exact (not_posted_of_quiet hquiet hready).elim
      · exact Nat.add_lt_add_right (hside.work_lt h.client hready ht) _
  | server e =>
      obtain ⟨t, ht, hd'⟩ := bind_eq_ok.mp hstep
      cases hd'
      rcases h.phase.server_cases with hquiet | ⟨ws, wr, hside⟩
      · exact (not_posted_of_quiet hquiet hready).elim
      · exact Nat.add_lt_add_left (hside.work_lt h.server hready ht) _
  | toServer =>
      obtain ⟨pkt, rest, hmngr⟩ := List.exists_cons_of_ne_nil hready
      simp only [Duplex.step, hmngr] at hstep
      obtain ⟨t, ht, hd'⟩ := bind_eq_ok.mp hstep
      cases hd'
      have hle := h.phase.work_toServer hmngr hA hB (covers_idle d.server) ht hphase
      have hcons := work_of_cons .idle hmngr
      simp only [Duplex.work]
      omega
  | toClient =>
      obtain ⟨pkt, rest, hmngr⟩ := List.exists_cons_of_ne_nil hready
      simp only [Duplex.step, hmngr] at hstep
      obtain ⟨t, ht, hd'⟩ := bind_eq_ok.mp hstep
      cases hd'
      have hle := h.phase.work_toClient hmngr hA hB (covers_idle d.client) ht hphase
      have hcons := work_of_cons .idle hmngr
      simp only [Duplex.work]
      omega

/-! ## Room

As nothing is written any more, one condition at the start keeps every number
from wrapping. -/

/-- **Nothing wraps while there is room**: for the numbers that what has been
written takes, and a receive window.  From there on `Bounded` holds in every
state (`Phase.bounded`). -/
structure Room (isnA isnB : BitVec 32) (a b : ℕ) : Prop where
  client : isnA.toNat + 1 + a + 0xFAF0 < 2 ^ 32
  server : isnB.toNat + 1 + b + 0xFAF0 < 2 ^ 32

theorem bounded_of_side {isn base' : BitVec 32} {ws : SendWindow Byte} {wr : ReceiveWindow Byte}
    {t : Tcb} (h : Side (isn + 1) base' ws wr t)
    (hroom : isn.toNat + 1 + t.written.length + 0xFAF0 < 2 ^ 32) : Bounded t := by
  have hbase := SerialNumber.toNat_add_one isn (by omega)
  have hstream := congrArg List.length h.sends.stream
  have hsent := ws.sent_le
  have hacked := ws.acked_le
  intro _
  rw [h.sends.unack, h.sends.next, h.toNat_add hacked, h.toNat_add le_rfl, hbase]
  exact ⟨by omega, by omega⟩

theorem bounded_of_handshake {isn : BitVec 32} {t : Tcb} (hunack : t.send.state.seqNrUnack = isn)
    (hnext : t.send.state.seqNrNext = isn + 1) {n : ℕ}
    (hroom : isn.toNat + 1 + n + 0xFAF0 < 2 ^ 32) : Bounded t := by
  intro _
  rw [hunack, hnext, SerialNumber.toNat_add_one isn (by omega)]
  exact ⟨by omega, by omega⟩

theorem Phase.bounded (h : Phase isnA isnB d)
    (hroom : Room isnA isnB d.client.written.length d.server.written.length) :
    Bounded d.client ∧ Bounded d.server := by
  cases h with
  | syn hclient _ _ _ hstate _ _ =>
      exact ⟨bounded_of_handshake hclient.unack hclient.next hroom.client,
        fun hlisten => (hlisten hstate).elim⟩
  | synAck hclient _ hserver _ _ _ =>
      exact ⟨bounded_of_handshake hclient.unack hclient.next hroom.client,
        bounded_of_handshake hserver.unack hserver.next hroom.server⟩
  | ack hclient _ _ _ _ _ _ hserver _ =>
      exact ⟨bounded_of_side hclient hroom.client,
        bounded_of_handshake hserver.unack hserver.next hroom.server⟩
  | opened hclient hserver _ _ =>
      exact ⟨bounded_of_side hclient hroom.client, bounded_of_side hserver hroom.server⟩

/-- What is ready writes nothing. -/
theorem written_of_posted {isn : BitVec 32} {t t' : Tcb} {e : Mstack.Event} (hposted : Posted t e)
    (hstep : Tcb.step isn t e = .ok t') : t'.written = t.written := by
  cases e with
  | process seg => exact hposted.elim
  | call c => exact hposted.elim
  | task k calls =>
      obtain ⟨hk, rfl⟩ := hposted
      rw [step_task_some [] (List.getElem?_eq_getElem hk)] at hstep
      have hentered : (t.enterTask k t.ioCtx[k]).written = t.written := by
        rw [Tcb.written, enterTask_written, Tcb.written]
      cases htask : t.ioCtx[k] with
      | connectionEstablished => rw [htask] at hstep hentered; cases hstep; exact hentered
      | writeDone cb len => rw [htask] at hstep hentered; cases hstep; exact hentered
      | readDone cb len =>
          rw [htask] at hstep hentered
          obtain ⟨pq, -, rfl⟩ := makeAndSendPkt_ok.mp hstep
          exact hentered
      | sendLoop =>
          rw [htask] at hstep hentered
          exact sendLoop_preserves (P := fun u => u.written = t.written) (fun u pq hu _ => hu)
            hentered hstep

theorem written_of_ready {isn : BitVec 32} {e : Event} (hready : Ready d e)
    (hstep : Duplex.step isn d e = .ok d') :
    d'.client.written = d.client.written ∧ d'.server.written = d.server.written := by
  cases e with
  | client e =>
      obtain ⟨t, ht, hd'⟩ := bind_eq_ok.mp hstep
      cases hd'
      exact ⟨written_of_posted hready ht, rfl⟩
  | server e =>
      obtain ⟨t, ht, hd'⟩ := bind_eq_ok.mp hstep
      cases hd'
      exact ⟨rfl, written_of_posted hready ht⟩
  | toServer =>
      obtain ⟨pkt, rest, hmngr⟩ := List.exists_cons_of_ne_nil hready
      simp only [Duplex.step, hmngr] at hstep
      obtain ⟨t, ht, hd'⟩ := bind_eq_ok.mp hstep
      cases hd'
      exact ⟨rfl, (process_keeps ht).written⟩
  | toClient =>
      obtain ⟨pkt, rest, hmngr⟩ := List.exists_cons_of_ne_nil hready
      simp only [Duplex.step, hmngr] at hstep
      obtain ⟨t, ht, hd'⟩ := bind_eq_ok.mp hstep
      cases hd'
      exact ⟨(process_keeps ht).written, rfl⟩

/-- Two blocks that flow, and have written these bytes. -/
structure Draining (isnA isnB : BitVec 32) (writtenA writtenB : List Byte) (d : Duplex) : Prop
    extends Flowing isnA isnB d where
  clientWritten : d.client.written = writtenA
  serverWritten : d.server.written = writtenB

/-- **The two blocks work off what is there.**  The instance of the general
rule: what is ready can be done, keeps `Draining`, and makes the work less. -/
theorem drains {writtenA writtenB : List Byte}
    (hroom : Room isnA isnB writtenA.length writtenB.length) :
    Drains (step isnB) Ready (Draining isnA isnB writtenA writtenB) work := by
  rintro d e ⟨hflow, rfl, rfl⟩ hready
  obtain ⟨hA, hB⟩ := hflow.phase.bounded hroom
  have hok : EventOk d e := by
    refine ⟨hA, hB, ?_⟩
    cases e with
    | toServer => trivial
    | toClient => trivial
    | client e => exact Posted.localOk hready
    | server e => exact Posted.localOk hready
  obtain ⟨d', hstep, hflow'⟩ := hflow.step hok
  obtain ⟨hclient, hserver⟩ := written_of_ready hready hstep
  exact ⟨d', hstep, ⟨hflow', hclient, hserver⟩, hflow.work_lt hready hA hB hstep hflow'.phase⟩

/-! ## At rest

What it means that nothing is left to do. -/

/-- Everything that has been written at `s` has been received at `r`, and if a
read is waiting there, it has been read. -/
def Arrived (s r : Tcb) : Prop :=
  r.handed ++ r.rcv.pq.data = s.written ∧ (r.onDataReceive ≠ [] → r.handed = s.written)

theorem arrived_of_intact {base base' : BitVec 32} {ws : SendWindow Byte} {wr : ReceiveWindow Byte}
    {s r : Tcb} (h : Intact s r) (hr : Side base base' ws wr r) (hmngr : s.mngr = [])
    (hunsent : s.unsent = []) : Arrived s r := by
  have hall : r.handed ++ r.rcv.pq.data = s.written := by
    rw [← h, hmngr, hunsent, payload_nil, List.append_nil, List.append_nil]
  refine ⟨hall, fun hwaits => ?_⟩
  rw [← hall, (hr.oneReader.waiting hwaits).1, List.append_nil]

/-- **At rest the connection is open, and everything written has arrived.**
During the handshake a packet is always on its way, so at rest the handshake is
over. -/
theorem Flowing.arrived (h : Flowing isnA isnB d) (hrest : AtRest Ready d) :
    (d.client.state = .established ∧ d.server.state = .established) ∧
      Arrived d.client d.server ∧ Arrived d.server d.client := by
  have hA : d.client.mngr = [] := not_not.mp (hrest .toServer)
  have hB : d.server.mngr = [] := not_not.mp (hrest .toClient)
  have hidleA : d.client.ioCtx = [] := by
    by_contra hne
    exact hrest (.client (.task 0 [])) ⟨List.length_pos_of_ne_nil hne, rfl⟩
  have hidleB : d.server.ioCtx = [] := by
    by_contra hne
    exact hrest (.server (.task 0 [])) ⟨List.length_pos_of_ne_nil hne, rfl⟩
  have hunsentA : d.client.unsent = [] := by
    refine h.client.loop.resolve_right ?_
    rw [hidleA]
    exact List.not_mem_nil
  have hunsentB : d.server.unsent = [] := by
    refine h.server.loop.resolve_right ?_
    rw [hidleB]
    exact List.not_mem_nil
  obtain ⟨hout, hback⟩ := h.phase.intact
  -- Until the connection is open, a segment of the handshake is on its way.
  cases h.phase with
  | syn _ hsyn _ _ _ _ _ => cases hsyn.symm.trans hA
  | synAck _ _ _ hsynAck _ _ => cases hsynAck.symm.trans hB
  | ack _ _ _ _ hack _ _ _ _ => cases hack.symm.trans hA
  | opened hclient hserver _ _ =>
      exact ⟨⟨hclient.established, hserver.established⟩,
        arrived_of_intact hout hserver hA hunsentA, arrived_of_intact hback hclient hB hunsentB⟩

/-- **Everything written arrives.**  Take any state that a client with a send
MSS and a server reach from the start, by events that `EventOk` admits, with
room for the numbers of what has been written; and let the application make no
further call.  Then, in whatever order packets are delivered and handlers are
run: nothing aborts; after at most `work` of them nothing is left to be
delivered or run; and at that point, which every schedule can be continued to,
the connection is open, and in both directions everything written has been
received and, if a read is waiting, read.

The MSS is a hypothesis because an active open leaves it as the constructor
did, unless the SYN-ACK brings one. -/
theorem everything_written_arrives {d₀ d : Duplex} {es fs : List Event}
    (hstart : Connecting isnA d₀) (hmss : d₀.client.send.state.mss ≠ 0)
    (hok : Admitted (Duplex.step isnB) EventOk d₀ es) (hrun : run isnB d₀ es = .ok d)
    (hroom : Room isnA isnB d.client.written.length d.server.written.length)
    (hfs : Admitted (Duplex.step isnB) Ready d fs) :
    ∃ gs d', Admitted (Duplex.step isnB) Ready d (fs ++ gs) ∧ run isnB d (fs ++ gs) = .ok d' ∧
      (fs ++ gs).length ≤ d.work ∧ AtRest Ready d' ∧
      (d'.client.written = d.client.written ∧ d'.server.written = d.server.written) ∧
      (d'.client.state = .established ∧ d'.server.state = .established) ∧
      Arrived d'.client d'.server ∧ Arrived d'.server d'.client := by
  obtain ⟨u, hu, hflow⟩ := EventSystem.run_total (P := Flowing isnA isnB)
    (fun _ _ h hok => h.step hok) (hstart.flowing hmss isnB) hok
  obtain rfl := Except.ok.inj (hrun.symm.trans hu)
  obtain ⟨gs, d', hgs, hrun', hdrained, hrest, hlength⟩ :=
    (drains hroom).rests ⟨hflow, rfl, rfl⟩ hfs
  exact ⟨gs, d', hgs, hrun', hlength, hrest, ⟨hdrained.clientWritten, hdrained.serverWritten⟩,
    hdrained.toFlowing.arrived hrest⟩

end Flowing

/-- Three bytes have been written, and two of them read. -/
theorem exchange_written : ∃ d, run 9 openingMss exchange = .ok d ∧
    d.client.written = [0x61, 0x62, 0x63] ∧ d.server.written = [] :=
  ⟨_, rfl, rfl, rfl⟩

/-- The third one arrives as well, whatever is run first. -/
theorem exchange_arrives : ∃ d, run 9 openingMss exchange = .ok d ∧
    ∃ gs d', Admitted (Duplex.step 9) Ready d gs ∧ run 9 d gs = .ok d' ∧ AtRest Ready d' ∧
      d'.server.handed ++ d'.server.rcv.pq.data = [0x61, 0x62, 0x63] := by
  obtain ⟨d, hrun, hclient, hserver⟩ := exchange_written
  have hroom : Room 7 9 d.client.written.length d.server.written.length := by
    rw [hclient, hserver]
    exact ⟨by decide, by decide⟩
  obtain ⟨gs, d', hgs, hrun', -, hrest, ⟨hwritten, -⟩, -, ⟨harrived, -⟩, -⟩ :=
    everything_written_arrives connecting_openingMss (by decide) exchange_admitted hrun hroom
      (EventSystem.admitted_nil (Duplex.step 9) Ready d)
  exact ⟨d, hrun, gs, d', hgs, hrun', hrest, harrived.trans (hwritten.trans hclient)⟩

end Duplex

end Mstack
