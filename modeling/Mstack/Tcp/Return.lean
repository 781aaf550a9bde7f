import Mstack.Tcp.RoundTrip
import Mstack.Tcp.SendQueue

/-!
# Everything sent to the echo server comes back

`Tcp.Delivery` lets two blocks come to rest that make no further call.  The
echo server does make calls, in each of its callbacks, and every byte that it
reads makes work: the completion of a read of `n` bytes leads to `n` bytes to
be sent, two handlers and a packet.  Hence `Price.echo`, and hence the measure
`RoundTrip.work`, in which a byte that the server has not read yet is worth
five.

### Main result

`everything_comes_back`.  Its hypotheses: the client has a send MSS, the events
so far are admissible, the client has written no more than a window, and there
is `Room` for the numbers, in both directions, below `2 ^ 32`.

### What is load-bearing

* **The writes of the server fit.**  They do as long as the client has not
  written more than the window of its own SYN, 64240 bytes: what has been read
  is then never more than the queue holds, whether or not the client reads and
  acknowledges what comes back (`Lively.writeFits`).  So the assumption of
  `Tcp.RoundTrip` is one about the client here.
* **The server has been called.**  A block that becomes established posts the
  connection callback (`Phase.heard`), and at rest no handler is left, so the
  application has issued its read.
* A read that waits costs nothing by itself: it is paid for by the bytes it
  will read (`Phase.covers`).  This is why the price of a reader is zero for
  the echo application, although it always has one waiting.
-/

namespace Mstack

open EventSystem (bind_eq_ok Admitted Drains AtRest)

/-- The application echoes: the completion of a read costs itself, a byte to be
sent for each that has been read, the handler that sends, the one that reports,
and the packet that follows. -/
def Price.echo : Price where
  task := fun
    | .readDone _ n => n + 4
    | .connectionEstablished | .writeDone _ _ | .sendLoop => 1
  reader := 0
  pos := fun h => by cases h <;> exact Nat.succ_pos _
  established := rfl

/-! ## The work of the application

Each of its calls, and each of its handlers. -/

namespace Tcb

section Work

variable {isn base base' : BitVec 32} {ws : SendWindow Byte} {wr : ReceiveWindow Byte} {t t' : Tcb}

/-- A write is not sent at once. -/
theorem Sends.unsent_afterWrite (h : Sends base ws t) {pq : CircularBuffer Byte}
    (hpq : t.send.pq = some pq) {buf : List Byte} (hfit : pq.size + buf.length ≤ pq.capacity)
    (cb : CallbackId) : (t.afterWrite pq buf cb).unsent = t.unsent ++ buf := by
  rw [(h.afterWrite hpq hfit cb).unsent_eq, h.unsent_eq]
  exact List.drop_append_of_le_length ws.sent_le

/-- **A read** costs nothing but what it reads. -/
theorem work_asyncReadSome (t : Tcb) {size : ℕ} (hsize : 0 < size) (cb : CallbackId) :
    (t.asyncReadSome size cb).work .echo + 5 * t.handed.length ≤
      t.work .echo + 5 * (t.asyncReadSome size cb).handed.length := by
  rw [asyncReadSome_eq]
  split
  · refine Nat.add_le_add_right (le_of_eq ?_) _
    simp only [work, show Price.echo.reader = 0 from rfl, Nat.zero_mul]
    rfl
  · rename_i hdata
    have hpos : 0 < min t.rcv.pq.size size := by
      rw [CircularBuffer.size_eq]
      exact lt_min (List.length_pos_of_ne_nil hdata) hsize
    have hhanded : (t.afterRead size cb).handed.length =
        t.handed.length + min t.rcv.pq.size size := by
      simp [handed, afterRead, CircularBuffer.size_eq]
    have hwork : (t.afterRead size cb).work .echo =
        t.work .echo + (min t.rcv.pq.size size + 4) := by
      have htasks := tasksWork_append .echo t.ioCtx [.readDone cb (min t.rcv.pq.size size)]
      rw [tasksWork_singleton] at htasks
      have hio : (t.afterRead size cb).ioCtx =
          t.ioCtx ++ [.readDone cb (min t.rcv.pq.size size)] := rfl
      have hprice : Price.echo.task (.readDone cb (min t.rcv.pq.size size)) =
          min t.rcv.pq.size size + 4 := rfl
      have hunsent : (t.afterRead size cb).unsent = t.unsent := rfl
      simp only [work, hio, htasks, hprice, hunsent]
      show t.state.work + t.mngr.length + _ + _ + Price.echo.reader * t.onDataReceive.length = _
      omega
    omega

/-- A write costs its bytes and two handlers. -/
theorem Sends.work_afterWrite (h : Sends base ws t) {pq : CircularBuffer Byte}
    (hpq : t.send.pq = some pq) {buf : List Byte} (hfit : pq.size + buf.length ≤ pq.capacity)
    (cb : CallbackId) : (t.afterWrite pq buf cb).work .echo = t.work .echo + buf.length + 2 := by
  have hio : (t.afterWrite pq buf cb).ioCtx =
      t.ioCtx ++ [.sendLoop, .writeDone cb buf.length] :=
    List.append_assoc t.ioCtx [.sendLoop] [.writeDone cb buf.length]
  have htasks := tasksWork_append .echo t.ioCtx [.sendLoop, .writeDone cb buf.length]
  have hprice : tasksWork .echo [.sendLoop, .writeDone cb buf.length] = 2 := rfl
  simp only [work, h.unsent_afterWrite hpq hfit cb, List.length_append, hio, htasks, hprice]
  show t.state.work + t.mngr.length + _ + _ + Price.echo.reader * t.onDataReceive.length = _
  omega

end Work

end Tcb

namespace Echo

open Tcb

variable {isn base base' : BitVec 32} {ws : SendWindow Byte} {wr : ReceiveWindow Byte} {s : Echo}
  {t' : Tcb}

theorem enterTask_handed (t : Tcb) (k : ℕ) (task : Task) :
    (t.enterTask k task).handed = t.handed := by
  rw [handed, enterTask_copied, handed]

/-- **A handler of the application makes the work less**, but for what it
reads.  Bytes it reads are taken from what the server has not read yet, at five
each. -/
theorem work_lt {k : ℕ} (hside : Side base base' ws wr s.tcb) (h : Flushing s.tcb)
    (hk : k < s.tcb.ioCtx.length)
    (hstep : Tcb.step isn s.tcb (s.blockEvent (.task k)) = .ok t') :
    t'.work .echo + 5 * s.tcb.handed.length < s.tcb.work .echo + 5 * t'.handed.length := by
  have hk' := List.getElem?_eq_getElem hk
  generalize s.tcb.ioCtx[k] = task at hk'
  rw [blockEvent, hk', step_task_some _ hk'] at hstep
  have hentered := hside.enterTask k task
  have hwork := hside.work_enterTask .echo hk'
  have hhanded := congrArg List.length (enterTask_handed s.tcb k task)
  have hread : (((s.tcb.enterTask k task).asyncReadSome bufSize onRead)).work .echo +
      5 * (s.tcb.enterTask k task).handed.length ≤ (s.tcb.enterTask k task).work .echo +
        5 * ((s.tcb.enterTask k task).asyncReadSome bufSize onRead).handed.length :=
    work_asyncReadSome _ (by decide) onRead
  have hpos := Price.echo.pos task
  cases task with
  | connectionEstablished =>
      obtain rfl := Except.ok.inj hstep
      omega
  | writeDone cb n =>
      obtain rfl := Except.ok.inj hstep
      omega
  | readDone cb n =>
      -- The write of what has been read, and the packet.
      obtain ⟨v, hv, hsend⟩ := bind_eq_ok.mp hstep
      obtain ⟨pq, hpq, rfl⟩ := makeAndSendPkt_ok.mp hsend
      obtain ⟨w, hw, hnil⟩ := bind_eq_ok.mp hv
      obtain rfl := Except.ok.inj hnil
      obtain ⟨pq', hpq', hfit, rfl⟩ := asyncWrite_ok.mp hw
      have hwrite := hentered.sends.work_afterWrite hpq' hfit onWrite
      have hpacket := (hentered.sends.afterWrite hpq' hfit onWrite).work_afterPacket .echo
        hentered.nextState_state hpq
      have hprice : Price.echo.task (.readDone cb n) = n + 4 := rfl
      have hlength : (s.buf.take n).length ≤ n := List.length_take_le n s.buf
      have hsame : (((s.tcb.enterTask k (.readDone cb n)).afterWrite pq' (s.buf.take n)
          onWrite).afterPacket pq).handed = (s.tcb.enterTask k (.readDone cb n)).handed := rfl
      rw [hsame]
      omega
  | sendLoop =>
      have hlisten : s.tcb.state ≠ .listen := by rw [hside.established]; decide
      have hloop := hentered.work_sendLoop .echo
        (by rw [enterTask_send]; exact h.mss.resolve_left hlisten) hstep
      have hsame : t'.handed = (s.tcb.enterTask k .sendLoop).handed :=
        sendLoop_preserves (P := fun u => u.handed = (s.tcb.enterTask k .sendLoop).handed)
          (fun u pq hu _ => hu) rfl hstep
      rw [hsame]
      omega

/-- The read that waits is paid for by what it will read. -/
theorem Phase.covers (h : Phase s) : Duplex.Covers .echo 5 s.tcb := by
  intro reader hreader n hsize
  have hpos : 0 < n := by
    refine hsize ?_
    change reader ∈ s.tcb.inbox.readers at hreader
    cases h with
    | before _ _ hreaders _ _ _ => rw [hreaders] at hreader; cases hreader
    | reads _ hreaders _ _ _ _ =>
        rw [hreaders] at hreader
        obtain rfl := List.mem_singleton.mp hreader
        exact (by decide : 0 < bufSize)
    | answers _ _ hreaders _ _ _ _ _ _ => rw [hreaders] at hreader; cases hreader
    | writes _ _ hreaders _ _ _ => rw [hreaders] at hreader; cases hreader
  show n + 4 ≤ 0 + 5 * n
  omega

end Echo

namespace Tcb

/-- The connection callback has been posted, or called. -/
def Heard (t : Tcb) : Prop := .connectionEstablished ∈ t.ioCtx ∨ t.Connected

theorem process_heard {isn : BitVec 32} {seg : Segment} {t t' : Tcb} (h : Heard t)
    (hprocess : t.process isn seg = .ok t') : Heard t' := by
  refine h.imp (fun hmem => (process_keeps hprocess).ioCtx.subset hmem) fun hcalled => ?_
  rw [Connected, process_called hprocess]
  exact hcalled

theorem task_heard {isn : BitVec 32} {k : ℕ} {calls : List AppCall} {t t' : Tcb} (h : Heard t)
    (hstep : Tcb.step isn t (.task k calls) = .ok t') : Heard t' := by
  refine task_induction (P := Heard) ?_ ?_ ?_ h hstep
  · intro u c u' hu hcall
    cases appCall_cases hcall with
    | waits size cb _ => exact hu
    | reads size cb _ => exact hu.imp_left (List.mem_append_left _)
    | writes buf cb pq _ _ =>
        exact hu.imp_left fun hmem => List.mem_append_left _ (List.mem_append_left _ hmem)
  · intro u k task hu hk
    by_cases htask : task = .connectionEstablished
    · subst htask
      refine .inr ?_
      rw [Connected, enterTask_called]
      exact List.mem_append_right _ (List.mem_singleton.mpr rfl)
    · refine hu.imp (fun hmem => ?_) (Echo.enterTask_connected htask).mpr
      rw [enterTask_ioCtx]
      exact mem_eraseIdx_of_ne hk hmem (Ne.symm htask)
  · exact fun u pq hu _ => hu

end Tcb

namespace Duplex

open Tcb

variable {isnA isnB : BitVec 32} {d : Duplex} {pkt : TcpPacket} {rest : List TcpPacket} {t : Tcb}

/-- **The SYN announces the whole receive queue**, and no other segment carries
a SYN. -/
theorem Phase.syn_window (h : Phase isnA isnB d) (hmngr : d.client.mngr = pkt :: rest)
    (hSYN : pkt.skb.tcph.SYN = true) : pkt.skb.tcph.window = rcvWindow := by
  cases h with
  | syn hclient hsyn hs _ _ _ _ =>
      obtain ⟨rfl, rfl⟩ := List.cons_eq_cons.mp (hsyn.symm.trans hmngr)
      exact hs
  | synAck _ hnil _ _ _ _ => cases hnil.symm.trans hmngr
  | ack _ _ _ _ hack hpkt _ _ _ =>
      obtain ⟨rfl, rfl⟩ := List.cons_eq_cons.mp (hack.symm.trans hmngr)
      exact hpkt.window
  | opened _ _ hout _ =>
      have hchannel := hout.channel
      rw [show Duplex.client _ = _ from rfl] at hmngr
      rw [hmngr] at hchannel
      cases hchannel.1.SYN.symm.trans hSYN

/-- **A server that becomes established posts the connection callback.**  It
becomes established when it processes the ACK of the handshake, and the
callback is posted in the same step. -/
theorem Phase.heard (h : Phase isnA isnB d) (hmngr : d.client.mngr = pkt :: rest)
    (hbefore : d.server.state = .established → Heard d.server)
    (ht : d.server.process isnB pkt.skb = .ok t) (hafter : t.state = .established) : Heard t := by
  by_cases hopen : d.server.state = .established
  · exact process_heard (hbefore hopen) ht
  cases h with
  | syn hclient hsyn hs hserver hstate hpq hmngr' =>
      obtain ⟨rfl, rfl⟩ := List.cons_eq_cons.mp (hsyn.symm.trans hmngr)
      obtain ⟨u, pkt', hu, hreceived, -, -, -⟩ := process_syn_quiet isnA isnB hserver hstate hs
      obtain rfl := Except.ok.inj (ht.symm.trans hu)
      cases hreceived.state.symm.trans hafter
  | synAck _ hnil _ _ _ _ => cases hnil.symm.trans hmngr
  | ack _ _ _ _ hmngr₁ hpkt hSYN hserver _ =>
      obtain ⟨rfl, rfl⟩ := List.cons_eq_cons.mp (hmngr₁.symm.trans hmngr)
      have hprocess := process_ack_received isnB hserver hpkt hSYN
      split at hprocess
      · rename_i hcond
        obtain rfl := Except.ok.inj (ht.symm.trans hprocess)
        refine .inl ?_
        rw [(hserver.ackSyn hcond.2).posted]
        exact List.mem_singleton.mpr rfl
      · obtain rfl := Except.ok.inj (ht.symm.trans hprocess)
        cases hserver.state.symm.trans hafter
  | opened _ hserver _ _ => exact (hopen hserver.established).elim

end Duplex

namespace RoundTrip

open Tcb

/-- What is left to do: at the client, at the server, and for what the server
has not read. -/
def work (s : RoundTrip) : ℕ :=
  s.client.work .idle + s.server.tcb.work .echo +
    5 * (s.client.written.length - s.server.tcb.handed.length)

/-- A packet that can be delivered, a handler of the client that makes no call,
or a handler of the server. -/
def Ready (s : RoundTrip) : Event → Prop
  | .toServer => s.client.mngr ≠ []
  | .toClient => s.server.tcb.mngr ≠ []
  | .client e => Posted s.client e
  | .server k => k < s.server.tcb.ioCtx.length

/-- **What the two need to come to rest with nothing left behind**: the two
blocks flow, the application serves, its send queue has the size of the
client's window, and it is going to hear of the connection. -/
structure Lively (isnA isnB : BitVec 32) (s : RoundTrip) : Prop where
  flowing : Duplex.Flowing isnA isnB s.duplex
  serving : ∃ out, Echo.Serving isnB (s.server.behind out)
  /-- The send queue of the server is as large as the window that the client
  announces. -/
  sized : ∀ n, s.server.tcb.queueCapacity = some n → n = 0xFAF0
  heard : s.server.tcb.state = .established → Heard s.server.tcb

section Lively

variable {isnA isnB : BitVec 32} {s s' : RoundTrip} {e : Event}

theorem lively_of_connecting {d : Duplex} (h : Duplex.Connecting isnA d)
    (hmss : d.client.send.state.mss ≠ 0) (isnB : BitVec 32) (buf : List Byte) :
    Lively isnA isnB ⟨d.client, d.server, buf⟩ := by
  refine ⟨h.flowing hmss isnB, (together_of_connecting h isnB buf).serving, ?_, ?_⟩
  all_goals
    obtain ⟨remoteEp, localEp, remoteEp', localEp', junkSend, junkSend', junkRcv, junkRcv', h⟩ := h
  · exact fun n hn => by cases hn
  · exact fun hstate => by cases hstate

/-- What is known of the server's block is kept. -/
theorem Lively.server_step (h : Lively isnA isnB s) (hstep : step isnB s e = .ok s') :
    (∀ n, s'.server.tcb.queueCapacity = some n → n = 0xFAF0) ∧
      (s'.server.tcb.state = .established → Heard s'.server.tcb) := by
  cases e with
  | toServer =>
      cases hmngr : s.client.mngr with
      | nil =>
          simp only [step, hmngr] at hstep
          obtain rfl := Except.ok.inj hstep
          exact ⟨h.sized, h.heard⟩
      | cons pkt rest =>
          simp only [step, hmngr] at hstep
          obtain ⟨server, hserver, hs'⟩ := bind_eq_ok.mp hstep
          obtain rfl := Except.ok.inj hs'
          obtain ⟨t, ht, hserver'⟩ := bind_eq_ok.mp hserver
          obtain rfl := Except.ok.inj hserver'
          refine ⟨fun n hn => ?_, h.flowing.phase.heard hmngr h.heard ht⟩
          change t.queueCapacity = some n at hn
          -- The queue is made once, with the window of the SYN.
          rcases process_queue ht with hkept | ⟨hSYN, -, hcapacity⟩
          · exact h.sized n (hkept.capacity.symm.trans hn)
          · rw [hcapacity, h.flowing.phase.syn_window hmngr hSYN] at hn
            exact (Option.some.inj hn).symm
  -- The client's events do not touch the server's block.
  | toClient =>
      cases hmngr : s.server.tcb.mngr with
      | nil =>
          simp only [step, hmngr] at hstep
          obtain rfl := Except.ok.inj hstep
          exact ⟨h.sized, h.heard⟩
      | cons pkt rest =>
          simp only [step, hmngr] at hstep
          obtain ⟨client, -, hs'⟩ := bind_eq_ok.mp hstep
          obtain rfl := Except.ok.inj hs'
          exact ⟨h.sized, h.heard⟩
  | client e =>
      obtain ⟨client, -, hs'⟩ := bind_eq_ok.mp hstep
      obtain rfl := Except.ok.inj hs'
      exact ⟨h.sized, h.heard⟩
  | server k =>
      obtain ⟨server, hserver, hs'⟩ := bind_eq_ok.mp hstep
      obtain rfl := Except.ok.inj hs'
      obtain ⟨t, ht, hserver'⟩ := bind_eq_ok.mp hserver
      obtain rfl := Except.ok.inj hserver'
      refine ⟨fun n hn => h.sized n ((task_queueKept ht).capacity.symm.trans hn), fun hstate => ?_⟩
      rcases h.flowing.phase.server_cases with hquiet | ⟨ws, wr, hside⟩
      · -- Before the connection is open there is no handler.
        have hnone : s.server.tcb.ioCtx[k]? = none := by
          rw [show s.server.tcb.ioCtx = [] from hquiet.ioCtx]
          rfl
        rw [Echo.blockEvent, step_task_none _ hnone] at ht
        obtain rfl := Except.ok.inj ht
        exact h.heard hstate
      · exact task_heard (h.heard hside.established) ht

/-- **One event.**  The blocks flow, the application serves, the queue keeps
its size, and the callback is posted or has been called. -/
theorem Lively.step (h : Lively isnA isnB s) (hok : EventOk s e) :
    ∃ s', RoundTrip.step isnB s e = .ok s' ∧ Lively isnA isnB s' := by
  obtain ⟨d, hd, hflow⟩ := h.flowing.step (duplexOk h.serving hok)
  obtain ⟨s', hstep, rfl⟩ := step_of_duplex hd
  obtain ⟨hsized, hheard⟩ := h.server_step hstep
  exact ⟨s', hstep, hflow, serving_step h.serving hstep, hsized, hheard⟩

/-! ## What is ready

Deliveries, and handlers at both ends. -/

theorem written_of_ready (hready : Ready s e) (hstep : step isnB s e = .ok s') :
    s'.client.written = s.client.written := by
  cases e with
  | toServer =>
      obtain ⟨pkt, rest, hmngr⟩ := List.exists_cons_of_ne_nil hready
      simp only [step, hmngr] at hstep
      obtain ⟨server, -, hs'⟩ := bind_eq_ok.mp hstep
      obtain rfl := Except.ok.inj hs'
      rfl
  | toClient =>
      obtain ⟨pkt, rest, hmngr⟩ := List.exists_cons_of_ne_nil hready
      simp only [step, hmngr] at hstep
      obtain ⟨client, ht, hs'⟩ := bind_eq_ok.mp hstep
      obtain rfl := Except.ok.inj hs'
      exact (process_keeps ht).written
  | client e =>
      obtain ⟨client, ht, hs'⟩ := bind_eq_ok.mp hstep
      obtain rfl := Except.ok.inj hs'
      exact Duplex.written_of_posted hready ht
  | server k =>
      obtain ⟨server, -, hs'⟩ := bind_eq_ok.mp hstep
      obtain rfl := Except.ok.inj hs'
      rfl

/-- The server reads no more than has been written, and writes no more than it
has read. -/
theorem Lively.lengths (h : Lively isnA isnB s) :
    s.server.tcb.written.length ≤ s.server.tcb.handed.length ∧
      s.server.tcb.handed.length ≤ s.client.written.length := by
  obtain ⟨out, hserving⟩ := h.serving
  obtain ⟨inHand, hhanded, -⟩ := handed_of_phase hserving.phase.of_behind
  have hall := onWay_eq h.flowing.phase.intact.1
  refine ⟨?_, ?_⟩
  · rw [hhanded, List.length_append]
    exact Nat.le_add_right _ _
  · show s.duplex.server.handed.length ≤ s.duplex.client.written.length
    rw [← hall, List.length_append]
    exact Nat.le_add_right _ _

/-- **The write of the server fits**: nothing that it has written and that has
not been acknowledged was not read before.  What is in its queue and what it is
about to write are parts of what the client has written, and that fits the
queue as a whole. -/
theorem Lively.writeFits (h : Lively isnA isnB s) (hwindow : s.client.written.length ≤ 0xFAF0)
    {k : ℕ} {cb : CallbackId} {n : ℕ} (hk : s.server.tcb.ioCtx[k]? = some (.readDone cb n)) :
    s.server.tcb.WriteFits (s.server.buf.take n) := by
  rcases h.flowing.phase.server_cases with hquiet | ⟨ws, wr, hside⟩
  · rw [show s.server.tcb.ioCtx = [] from hquiet.ioCtx] at hk
    cases hk
  · change Side (isnB + 1) (isnA + 1) ws wr s.server.tcb at hside
    obtain ⟨pq, hpq, hdata, -⟩ := hside.sends.queue
    have hcapacity : pq.capacity = 0xFAF0 :=
      h.sized _ (by rw [queueCapacity, hpq]; rfl)
    have hqueue : pq.size ≤ s.server.tcb.written.length := by
      rw [CircularBuffer.size_eq, hdata, ws.queue_length, hside.sends.stream]
      exact Nat.sub_le _ _
    obtain ⟨out, hserving⟩ := h.serving
    have hhanded : s.server.tcb.written.length + n ≤ s.server.tcb.handed.length := by
      have hmem : (cb, n) ∈ s.server.tcb.inbox.completions :=
        mem_readDones.mpr (List.mem_of_getElem? hk)
      cases hserving.phase.of_behind with
      | answers part _ _ hdones _ _ _ _ hall =>
          rw [hdones] at hmem
          obtain ⟨-, rfl⟩ := Prod.mk.inj (List.mem_singleton.mp hmem)
          rw [hall, List.length_append]
      | before _ _ _ hdones _ _ => rw [hdones] at hmem; cases hmem
      | reads _ _ _ hdones _ _ => rw [hdones] at hmem; cases hmem
      | writes _ _ _ hdones _ _ => rw [hdones] at hmem; cases hmem
    have htake := List.length_take_le n s.server.buf
    have hlengths := h.lengths
    exact ⟨pq, hpq, by omega⟩

/-- **Whatever is ready makes the work less.**  The client's handlers as in
`Tcp.Delivery`; at the server the bytes read are paid for by the term for what
it has not read. -/
theorem Lively.work_lt (h : Lively isnA isnB s) (hready : Ready s e) (hA : Bounded s.client)
    (hB : Bounded s.server.tcb) (hstep : RoundTrip.step isnB s e = .ok s')
    (h' : Lively isnA isnB s') : s'.work < s.work := by
  -- The delivery pays for whatever the server posts and sends in answer.
  have hlengths := h.lengths.2
  have hlengths' := h'.lengths.2
  have hwritten := congrArg List.length (written_of_ready hready hstep)
  have hphase' := h'.flowing.phase
  cases e with
  | toServer =>
      obtain ⟨pkt, rest, hmngr⟩ := List.exists_cons_of_ne_nil hready
      simp only [RoundTrip.step, hmngr] at hstep
      obtain ⟨server, hserver, hs'⟩ := bind_eq_ok.mp hstep
      obtain rfl := Except.ok.inj hs'
      obtain ⟨t, ht, hserver'⟩ := bind_eq_ok.mp hserver
      obtain rfl := Except.ok.inj hserver'
      obtain ⟨out, hserving⟩ := h.serving
      have hle := h.flowing.phase.work_toServer hmngr hA hB hserving.phase.of_behind.covers ht
        hphase'
      have hcons := Duplex.work_of_cons .idle hmngr
      simp only [work, duplex] at *
      omega
  | toClient =>
      obtain ⟨pkt, rest, hmngr⟩ := List.exists_cons_of_ne_nil hready
      simp only [RoundTrip.step, hmngr] at hstep
      obtain ⟨t, ht, hs'⟩ := bind_eq_ok.mp hstep
      obtain rfl := Except.ok.inj hs'
      have hle := h.flowing.phase.work_toClient hmngr hA hB (Duplex.covers_idle s.client) ht hphase'
      have hcons := Duplex.work_of_cons .echo hmngr
      have hsame : ({ s.server.tcb with mngr := rest } : Tcb).handed = s.server.tcb.handed := rfl
      simp only [work, duplex, hsame] at *
      omega
  | client e =>
      obtain ⟨t, ht, hs'⟩ := bind_eq_ok.mp hstep
      obtain rfl := Except.ok.inj hs'
      rcases h.flowing.phase.client_cases with hquiet | ⟨ws, wr, hside⟩
      · -- A block that is still opening has nothing posted.
        exact (Duplex.not_posted_of_quiet hquiet hready).elim
      · have hless := hside.work_lt h.flowing.client hready ht
        simp only [work, duplex] at *
        omega
  | server k =>
      obtain ⟨server, hserver, hs'⟩ := bind_eq_ok.mp hstep
      obtain rfl := Except.ok.inj hs'
      obtain ⟨t, ht, hserver'⟩ := bind_eq_ok.mp hserver
      obtain rfl := Except.ok.inj hserver'
      rcases h.flowing.phase.server_cases with hquiet | ⟨ws, wr, hside⟩
      · have hlt : k < s.server.tcb.ioCtx.length := hready
        rw [show s.server.tcb.ioCtx = [] from hquiet.ioCtx] at hlt
        exact (Nat.not_lt_zero k hlt).elim
      · have hless := Echo.work_lt hside h.flowing.server hready ht
        simp only [work, duplex] at *
        omega

end Lively

/-! ## Coming to rest

The measure decreases; what is left is read off the phase. -/

/-- The two, when the client has written these bytes. -/
structure Draining (isnA isnB : BitVec 32) (written : List Byte) (s : RoundTrip) : Prop
    extends Lively isnA isnB s where
  written : s.client.written = written

variable {isnA isnB : BitVec 32}

/-- **The two work off what is there**, if all of it fits a window. -/
theorem drains {written : List Byte} (hwindow : written.length ≤ 0xFAF0)
    (hroom : Duplex.Room isnA isnB written.length written.length) :
    Drains (step isnB) Ready (Draining isnA isnB written) work := by
  rintro s e ⟨hlively, rfl⟩ hready
  obtain ⟨hwrites, hreads⟩ := hlively.lengths
  have hless : Duplex.Room isnA isnB s.client.written.length s.server.tcb.written.length := by
    refine ⟨hroom.client, ?_⟩
    have hserver := hroom.server
    omega
  obtain ⟨hA, hB⟩ := hlively.flowing.phase.bounded hless
  have hok : EventOk s e := by
    refine ⟨hA, hB, ?_⟩
    cases e with
    | toServer => trivial
    | toClient => trivial
    | client e => exact Posted.localOk hready
    | server k => exact fun cb n hk => hlively.writeFits hwindow hk
  obtain ⟨s', hstep, hlively'⟩ := hlively.step hok
  exact ⟨s', hstep, ⟨hlively', written_of_ready hready hstep⟩,
    hlively.work_lt hready hA hB hstep hlively'⟩

/-- At rest the application waits for more, and has written all that it has
read. -/
theorem waits_of_phase {s : Echo} (h : Echo.Phase s) (hcalled : s.tcb.Connected)
    (hidle : s.tcb.ioCtx = []) : s.tcb.onDataReceive = [⟨Echo.bufSize, Echo.onRead⟩] ∧
      s.tcb.rcv.pq.data = [] ∧ s.tcb.handed = s.tcb.written := by
  have hdones : s.tcb.inbox.completions = [] := by
    show readDones s.tcb.ioCtx = []
    rw [hidle]
    rfl
  cases h with
  | before hno _ _ _ _ _ => exact (hno hcalled).elim
  | reads _ hreaders hempty _ _ hall => exact ⟨hreaders, hempty, hall⟩
  | answers _ _ _ hposted _ _ _ _ _ => cases hdones.symm.trans hposted
  | writes _ _ _ _ hreports _ => rw [hidle] at hreports; cases hreports

/-- **At rest everything has come back.**  The application waits for more, so
it has written all that it has read; and both directions have arrived. -/
theorem Lively.returned {s : RoundTrip} (h : Lively isnA isnB s) (hrest : AtRest Ready s) :
    s.server.tcb.onDataReceive = [⟨Echo.bufSize, Echo.onRead⟩] ∧
      s.server.tcb.written = s.client.written ∧ Duplex.Arrived s.server.tcb s.client := by
  have hidle : s.server.tcb.ioCtx = [] := by
    by_contra hne
    exact hrest (.server 0) (List.length_pos_of_ne_nil hne)
  have hblocks : AtRest Duplex.Ready s.duplex := by
    intro e hready
    cases e with
    | toServer => exact hrest .toServer hready
    | toClient => exact hrest .toClient hready
    | client e => exact hrest (.client e) hready
    | server e =>
        cases e with
        | process seg => exact hready
        | call c => exact hready
        | task k calls => exact hrest (.server k) hready.1
  obtain ⟨⟨-, hopen⟩, ⟨hthere, -⟩, hback⟩ := h.flowing.arrived hblocks
  have hcalled : s.server.tcb.Connected := by
    refine (h.heard hopen).resolve_left ?_
    rw [hidle]
    exact List.not_mem_nil
  obtain ⟨out, hserving⟩ := h.serving
  obtain ⟨hwaits, hempty, hall⟩ := waits_of_phase hserving.phase.of_behind hcalled hidle
  refine ⟨hwaits, ?_, hback⟩
  calc s.server.tcb.written
      = s.server.tcb.handed ++ s.server.tcb.rcv.pq.data := by rw [hempty, List.append_nil, hall]
    _ = s.client.written := hthere

/-- **Everything sent to the echo server comes back.**  Take any state that a
client with a send MSS and the server reach from the start, by events that
`EventOk` admits; let the client have written no more than a window, 64240
bytes, let there be room for the numbers of that in both directions, and let
the client make no further call.  Then, in whatever order packets are delivered
and handlers are run: nothing aborts; after at most `work` of them nothing is
left to be delivered or run; and at that point, which every schedule can be
continued to, the server waits with a read, and everything that the client has
written is back in its receive queue or, if it has read it or waits for it, in
its hands. -/
theorem everything_comes_back {d : Duplex} {s : RoundTrip} {es fs : List Event}
    (hstart : Duplex.Connecting isnA d) (hmss : d.client.send.state.mss ≠ 0)
    (hok : Admitted (step isnB) EventOk ⟨d.client, d.server, Echo.array⟩ es)
    (hrun : run isnB ⟨d.client, d.server, Echo.array⟩ es = .ok s)
    (hwindow : s.client.written.length ≤ 0xFAF0)
    (hroom : Duplex.Room isnA isnB s.client.written.length s.client.written.length)
    (hfs : Admitted (step isnB) Ready s fs) :
    ∃ gs s', Admitted (step isnB) Ready s (fs ++ gs) ∧ run isnB s (fs ++ gs) = .ok s' ∧
      (fs ++ gs).length ≤ s.work ∧ AtRest Ready s' ∧
      s'.server.tcb.onDataReceive = [⟨Echo.bufSize, Echo.onRead⟩] ∧
      s'.client.handed ++ s'.client.rcv.pq.data = s.client.written ∧
      (s'.client.onDataReceive ≠ [] → s'.client.handed = s.client.written) := by
  obtain ⟨u, hu, hlively⟩ := EventSystem.run_total (P := Lively isnA isnB)
    (fun _ _ h hok => h.step hok) (lively_of_connecting hstart hmss isnB Echo.array) hok
  obtain rfl := Except.ok.inj (hrun.symm.trans hu)
  obtain ⟨gs, s', hgs, hrun', hdraining, hrest, hlength⟩ :=
    (drains hwindow hroom).rests ⟨hlively, rfl⟩ hfs
  obtain ⟨hwaits, hwritten, hall, hread⟩ := hdraining.toLively.returned hrest
  rw [hwritten, hdraining.written] at hall hread
  exact ⟨gs, s', hgs, hrun', hlength, hrest, hwaits, hall, hread⟩

/-- The client has written three bytes, which are on their way, and the server
has been called back. -/
def threeBytes : List Event :=
  [.toServer, .toClient, .client (.task 0 [.write [0x61, 0x62, 0x63] 1]), .toServer, .server 0]

theorem threeBytes_admitted : Admitted (step 9) EventOk
    ⟨Duplex.openingMss.client, Duplex.openingMss.server, Echo.array⟩ threeBytes := by
  refine .cons ⟨fun _ => by decide, fun h => (h rfl).elim, trivial⟩ rfl ?_
  refine .cons ⟨fun _ => by decide, fun _ => by decide, trivial⟩ rfl ?_
  refine .cons ⟨fun _ => by decide, fun _ => by decide, fun task hk _ => ?_⟩ rfl ?_
  · cases hk
    exact .single ⟨List.mem_singleton.mpr rfl, _, rfl, by decide⟩
  refine .cons ⟨fun _ => by decide, fun _ => by decide, trivial⟩ rfl ?_
  exact .single ⟨fun _ => by decide, fun _ => by decide, fun cb n hk => by cases hk⟩

/-- The three bytes come back, whatever is run first. -/
theorem three_bytes_come_back : ∃ s,
    run 9 ⟨Duplex.openingMss.client, Duplex.openingMss.server, Echo.array⟩ threeBytes = .ok s ∧
      ∃ gs s', Admitted (step 9) Ready s gs ∧ run 9 s gs = .ok s' ∧ AtRest Ready s' ∧
        s'.client.handed ++ s'.client.rcv.pq.data = [0x61, 0x62, 0x63] := by
  obtain ⟨s, hrun, hwritten⟩ : ∃ s,
      run 9 ⟨Duplex.openingMss.client, Duplex.openingMss.server, Echo.array⟩ threeBytes = .ok s ∧
        s.client.written = [0x61, 0x62, 0x63] := ⟨_, rfl, rfl⟩
  have hwindow : s.client.written.length ≤ 0xFAF0 := by rw [hwritten]; decide
  have hroom : Duplex.Room 7 9 s.client.written.length s.client.written.length := by
    rw [hwritten]
    exact ⟨by decide, by decide⟩
  obtain ⟨gs, s', hgs, hrun', -, hrest, -, hall, -⟩ :=
    everything_comes_back Duplex.connecting_openingMss (by decide) threeBytes_admitted hrun hwindow
      hroom (EventSystem.admitted_nil (step 9) Ready s)
  exact ⟨s, hrun, gs, s', hgs, hrun', hrest, hall.trans hwritten⟩

end RoundTrip

end Mstack
