import Mstack.Tcp.Channel

/-!
# End-to-end stream integrity

The two blocks of `Duplex` through a whole connection, from the SYN on, for
every interleaving of deliveries, reads, writes and handlers, in both
directions.

A byte that has been written is in one of four places: in the hands of the
reader, in the receive queue, in the channel, or in the part of the send queue
that has not been sent.  `Intact` says that these four, in this order, are what
was written.  The sender keeps sent bytes in its queue until they are
confirmed; those are copies and are not counted.

### Main result

`duplex_stream_integrity`: in every state reached both directions are intact,
and no assertion fails on the way.

### Outline

The invariant follows the handshake.  `Phase` has one case for each segment of
it and one for the open connection:

* `syn`, `synAck` — one packet is on its way, and neither block has been given
  to an application;
* `ack` — the client is open and may already write and send behind its ACK, the
  server is not;
* `opened` — each direction is a `Side` with its channel.

`Phase.step` is the step lemma.  It takes no case split on the code: the
handshake uses the closed forms of `Tcp.Duplex`, the open connection uses
`local_step` and `Side.deliver`.

### What is assumed

`EventOk`: at either side what `LocalOk` admits (one read at a time, writes
that fit the queue), and numbers that stay below `2 ^ 32` with a window added.
Of the peer nothing is assumed, as it is the same code; nor of the members the
constructor leaves alone.  With a send MSS of zero nothing is ever sent, and
the connection is intact all the same.
-/

namespace Mstack

namespace Tcb

open EventSystem (bind_eq_ok Admitted)

/-- The part of the send queue that has not been sent. -/
def unsent (t : Tcb) : List Byte :=
  match t.send.pq with
  | none => []
  | some pq => pq.data.drop (t.appDataUnacknowleged pq)

/-- **Nothing is lost between the sender `s` and the reader of `r`**: what has
been read, what is buffered, what is in the channel and what has not been sent
are what was written. -/
def Intact (s r : Tcb) : Prop :=
  r.handed ++ r.rcv.pq.data ++ payload s.mngr ++ s.unsent = s.written

theorem Sends.unsent_eq {base : BitVec 32} {w : SendWindow Byte} {t : Tcb}
    (h : Sends base w t) : t.unsent = w.unsent := by
  obtain ⟨pq, hpq, hdata, -⟩ := h.queue
  rw [unsent, hpq]
  show pq.data.drop (t.appDataUnacknowleged pq) = _
  rw [h.appDataUnacknowleged_eq hpq, hdata, w.queue_drop_inFlight]

theorem intact_of_emitted {base : BitVec 32} {ws : SendWindow Byte} {s r : Tcb}
    {got : List Byte} (hs : Sends base ws s) (hgot : r.handed ++ r.rcv.pq.data = got)
    (hemitted : got ++ payload s.mngr = ws.emitted) : Intact s r := by
  rw [Intact, hgot, hemitted, hs.unsent_eq, ← hs.stream]
  exact List.take_append_drop _ _

/-- A block that has neither written nor received anything. -/
theorem Quiet.received {t : Tcb} (h : Quiet t) : t.handed ++ t.rcv.pq.data = [] := by
  rw [handed, h.copied, h.data]
  rfl

theorem Quiet.intact {s r : Tcb} (hs : Quiet s) (hgot : r.handed ++ r.rcv.pq.data = [])
    (hmngr : payload s.mngr = []) (hunsent : s.unsent = []) : Intact s r := by
  rw [Intact, hgot, hmngr, hunsent, Tcb.written, hs.written]
  rfl

theorem EmptyQueue.unsent_eq {t : Tcb} (h : EmptyQueue t) : t.unsent = [] := by
  rw [unsent, h]
  exact List.drop_nil

/-- Before the connection callback a local event does nothing. -/
theorem Quiet.step {isn : BitVec 32} {t : Tcb} {e : Event} (h : Quiet t) (hok : LocalOk t e) :
    Tcb.step isn t e = .ok t := by
  cases e with
  | process seg => exact hok.elim
  | call c =>
      have hcon : Connected t := hok.1
      rw [Connected, h.called] at hcon
      cases hcon
  | task k calls => exact step_task_none calls (by rw [h.ioCtx]; rfl)

/-- **The end of the handshake is the start of a side.**  Nothing has been
written and nothing received, so both windows are empty.  The room the side
needs is what `Bounded` said of the handshake. -/
theorem Fresh.side {base base' : BitVec 32} {t : Tcb} (h : Fresh base base' t)
    (hroom : base.toNat + 0xFAF0 < 2 ^ 32) :
    Side base base' SendWindow.start (ReceiveWindow.ofBuffer []) t := by
  refine ⟨.of_established h.state h.nextState h.pq, h.state, .of_nil h.readers, ⟨?_, ?_, ?_, ?_⟩,
    ?_, hroom, ⟨?_, h.data, ?_⟩, ?_, h.window⟩
  · rw [Tcb.written, h.written]; rfl
  · rw [h.unack]; exact (BitVec.add_zero _).symm
  · rw [h.next]; exact (BitVec.add_zero _).symm
  · exact ⟨_, h.pq, rfl, by decide⟩
  · intro pq hpq
    rw [h.pq] at hpq
    cases hpq
    exact le_of_eq rfl
  · rw [handed, h.copied]; rfl
  · rw [h.rcvNext]; exact (BitVec.add_zero _).symm
  · rw [h.capacity]; exact le_of_eq rfl

theorem Bare.plain {seqNo ackNo : BitVec 32} {pkt : TcpPacket} (h : Bare seqNo ackNo pkt)
    (hSYN : pkt.skb.tcph.SYN = false) : Plain pkt :=
  ⟨h.ACK, hSYN, h.RST, h.FIN, by rw [h.text]; decide⟩

end Tcb

namespace Duplex

open Tcb
open EventSystem (Admitted)

/-- **The two blocks and their channels, through the handshake and after it.**
The first three cases follow the packet of the handshake that is on its way.
They do not exclude that the client has opened before the server has: in `ack`
it is already a side, with the ACK as the oldest packet of its channel and
possibly data behind it. -/
inductive Phase (isnA isnB : BitVec 32) : Duplex → Prop where
  | syn {client server s : Tcb} (hclient : SynSent isnA client)
      (hmngr : client.mngr = [s.synOut isnA]) (hs : s.rcv.state.window = rcvWindow)
      (hserver : Quiet server) (hstate : server.state = .listen) (hpq : server.send.pq = none)
      (hmngr' : server.mngr = []) : Phase isnA isnB ⟨client, server⟩
  | synAck {client server : Tcb} {pkt : TcpPacket} (hclient : SynSent isnA client)
      (hmngr : client.mngr = []) (hserver : SynReceived isnB (isnA + 1) server)
      (hmngr' : server.mngr = [pkt]) (hpkt : Bare isnB (isnA + 1) pkt)
      (hSYN : pkt.skb.tcph.SYN = true) : Phase isnA isnB ⟨client, server⟩
  | ack {client server : Tcb} {pkt : TcpPacket} {rest : List TcpPacket} {ws : SendWindow Byte}
      {wr : ReceiveWindow Byte} (hclient : Side (isnA + 1) (isnB + 1) ws wr client)
      (hout : Outgoing (isnA + 1) (isnB + 1) [] 0 ws wr client) (hacked : ws.acked = 0)
      (hstream : wr.stream = []) (hmngr : client.mngr = pkt :: rest)
      (hpkt : Bare (isnA + 1) (isnB + 1) pkt) (hSYN : pkt.skb.tcph.SYN = false)
      (hserver : SynReceived isnB (isnA + 1) server) (hmngr' : server.mngr = []) :
      Phase isnA isnB ⟨client, server⟩
  | opened {client server : Tcb} {ws ws' : SendWindow Byte} {wr wr' : ReceiveWindow Byte}
      (hclient : Side (isnA + 1) (isnB + 1) ws wr client)
      (hserver : Side (isnB + 1) (isnA + 1) ws' wr' server)
      (hout : Outgoing (isnA + 1) (isnB + 1) wr'.stream ws'.acked ws wr client)
      (hback : Outgoing (isnB + 1) (isnA + 1) wr.stream ws.acked ws' wr' server) :
      Phase isnA isnB ⟨client, server⟩

theorem Connecting.phase {isnA : BitVec 32} {d : Duplex} (h : Connecting isnA d)
    (isnB : BitVec 32) :
    Phase isnA isnB d := by
  obtain ⟨remoteEp, localEp, remoteEp', localEp', junkSend, junkSend', junkRcv, junkRcv', h⟩ := h
  rw [startConnecting_eq] at h
  cases h
  exact .syn (s := create remoteEp localEp .connecting .connecting junkSend junkRcv)
    (synSent_afterConnect isnA remoteEp localEp junkSend junkRcv) rfl rfl
    (quiet_create remoteEp' localEp' .listen .listen junkSend' junkRcv') rfl rfl rfl

/-- **Every phase is intact, in both directions.**  During the handshake
because nothing has been written; then because what has left a side is the
emitted prefix of its window, and the rest of the window is what it has not
sent. -/
theorem Phase.intact {isnA isnB : BitVec 32} {d : Duplex} (h : Phase isnA isnB d) :
    Intact d.client d.server ∧ Intact d.server d.client := by
  cases h with
  | syn hclient hmngr hs hserver hstate hpq hmngr' =>
      refine ⟨hclient.toQuiet.intact hserver.received ?_ ?_,
        hserver.intact hclient.toQuiet.received ?_ ?_⟩
      · rw [hmngr]; rfl
      · rw [unsent, hclient.pq]
      · rw [hmngr']; rfl
      · rw [unsent, hpq]
  | synAck hclient hmngr hserver hmngr' hpkt hSYN =>
      refine ⟨hclient.toQuiet.intact hserver.toQuiet.received ?_ ?_,
        hserver.toQuiet.intact hclient.toQuiet.received ?_ hserver.pq.unsent_eq⟩
      · rw [hmngr]; rfl
      · rw [unsent, hclient.pq]
      · rw [hmngr', payload_singleton, hpkt.text]
  | ack hclient hout hacked hstream hmngr hpkt hSYN hserver hmngr' =>
      refine ⟨intact_of_emitted hclient.sends hserver.toQuiet.received
        hout.emitted, hserver.toQuiet.intact ?_ ?_ hserver.pq.unsent_eq⟩
      · rw [hclient.receives.received, hstream]
      · rw [hmngr']; rfl
  | opened hclient hserver hout hback =>
      exact ⟨intact_of_emitted hclient.sends hserver.receives.received
          hout.emitted,
        intact_of_emitted hserver.sends hclient.receives.received
          hback.emitted⟩

/-! ## One event

One lemma for each segment of the handshake, then the open connection. -/

/-- What may happen to the two blocks: any delivery, and on either side what
`LocalOk` admits, while no sequence number in use plus the receive window
reaches `2 ^ 32`. -/
def EventOk (d : Duplex) (e : Event) : Prop :=
  Bounded d.client ∧ Bounded d.server ∧
    match e with
    | .toServer => True
    | .toClient => True
    | .client e => LocalOk d.client e
    | .server e => LocalOk d.server e

section Step

variable {isnA isnB : BitVec 32}

/-- The SYN arrives. -/
theorem phase_of_syn {client server s : Tcb} (hclient : SynSent isnA client)
    (hmngr : client.mngr = [s.synOut isnA]) (hs : s.rcv.state.window = rcvWindow)
    (hserver : Quiet server) (hstate : server.state = .listen) (hmngr' : server.mngr = []) :
    ∃ d, step isnB ⟨client, server⟩ .toServer = .ok d ∧ Phase isnA isnB d := by
  obtain ⟨server', pkt, hprocess, hreceived, hsent, hbare, hSYN⟩ :=
    process_syn_quiet isnA isnB hserver hstate hs
  rw [hmngr', List.nil_append] at hsent
  exact ⟨_, step_toServer hmngr hprocess, .synAck (hclient.setMngr []) rfl hreceived hsent hbare
    hSYN⟩

/-- The SYN-ACK arrives. -/
theorem phase_of_synAck {client server : Tcb} {pkt : TcpPacket} (hclient : SynSent isnA client)
    (hmngr : client.mngr = []) (hserver : SynReceived isnB (isnA + 1) server)
    (hmngr' : server.mngr = [pkt]) (hpkt : Bare isnB (isnA + 1) pkt)
    (hSYN : pkt.skb.tcph.SYN = true) (hbound : Bounded client) :
    ∃ d, step isnB ⟨client, server⟩ .toClient = .ok d ∧ Phase isnA isnB d := by
  obtain ⟨hunack, hnext⟩ := hbound (by rw [hclient.state]; simp)
  rw [hclient.unack] at hunack
  rw [hclient.next] at hnext
  have hwrap : isnA ≤ isnA + 1 := (le_succ_iff isnA).mpr (by omega)
  obtain ⟨client', pkt', hprocess, hfresh, hsent, hbare, hSYN'⟩ :=
    process_synAck_sent isnB hclient hpkt hSYN hwrap
  rw [hmngr, List.nil_append] at hsent
  refine ⟨_, step_toClient hmngr' hprocess, .ack (hfresh.side hnext) ⟨?_, ?_⟩ rfl rfl hsent hbare
    hSYN' (hserver.setMngr []) rfl⟩
  · rw [hsent, payload_singleton, hbare.text]
    rfl
  · rw [hsent]
    refine ⟨hbare.plain hSYN', fun hne => (hne hbare.text).elim, 0, le_rfl, ?_, le_rfl⟩
    rw [hbare.ackNo]
    exact (BitVec.add_zero _).symm

/-- The ACK arrives. -/
theorem phase_of_ack {client server : Tcb} {pkt : TcpPacket} {rest : List TcpPacket}
    {ws : SendWindow Byte} {wr : ReceiveWindow Byte}
    (hclient : Side (isnA + 1) (isnB + 1) ws wr client)
    (hout : Outgoing (isnA + 1) (isnB + 1) [] 0 ws wr client) (hacked : ws.acked = 0)
    (hstream : wr.stream = []) (hmngr : client.mngr = pkt :: rest)
    (hpkt : Bare (isnA + 1) (isnB + 1) pkt) (hSYN : pkt.skb.tcph.SYN = false)
    (hserver : SynReceived isnB (isnA + 1) server) (hmngr' : server.mngr = [])
    (hboundA : Bounded client) (hboundB : Bounded server) :
    ∃ d, step isnB ⟨client, server⟩ .toServer = .ok d ∧ Phase isnA isnB d := by
  have hunackA := (hboundA (by rw [hclient.established]; simp)).1
  obtain ⟨hunackB, hnextB⟩ := hboundB (by rw [hserver.state]; simp)
  rw [hclient.sends.unack, hclient.toNat_add ws.acked_le] at hunackA
  rw [hserver.unack] at hunackB
  rw [hserver.next] at hnextB
  have hwrap : isnB ≤ isnB + 1 := (le_succ_iff isnB).mpr (by omega)
  have hprocess := process_ack_received isnB hserver hpkt hSYN
  rw [if_pos ⟨by omega, hwrap⟩] at hprocess
  refine ⟨_, step_toServer hmngr hprocess, .opened (hclient.setMngr rest)
    ((hserver.ackSyn hwrap).side hnextB) ⟨?_, ?_⟩ ⟨?_, ?_⟩⟩
  · have hemitted := hout.emitted
    rw [hmngr, payload, List.map_cons, List.flatten_cons, hpkt.text] at hemitted
    exact hemitted
  · have hchannel := hout.channel
    rw [hmngr] at hchannel
    obtain ⟨-, -, k, hlo, -, hrest⟩ := hchannel
    rw [hpkt.text] at hrest
    exact hrest.mono_lo hlo
  · show wr.stream ++ payload server.mngr = _
    rw [hstream, hmngr']
    rfl
  · show Channel _ _ _ _ _ server.mngr
    rw [hmngr', hacked]
    exact le_rfl

theorem step_client {isn : BitVec 32} {d : Duplex} {e : Mstack.Event} {t : Tcb}
    (h : Tcb.step isn d.client e = .ok t) : step isn d (.client e) = .ok ⟨t, d.server⟩ := by
  simp only [step, h, EventSystem.ok_bind]
  rfl

theorem step_server {isn : BitVec 32} {d : Duplex} {e : Mstack.Event} {t : Tcb}
    (h : Tcb.step isn d.server e = .ok t) : step isn d (.server e) = .ok ⟨d.client, t⟩ := by
  simp only [step, h, EventSystem.ok_bind]
  rfl

/-- An event while the ACK of the handshake is on its way: the client may
already write and send behind it. -/
theorem Phase.step_ack {client server : Tcb} {pkt : TcpPacket} {rest : List TcpPacket}
    {ws : SendWindow Byte} {wr : ReceiveWindow Byte} {e : Event}
    (hclient : Side (isnA + 1) (isnB + 1) ws wr client)
    (hout : Outgoing (isnA + 1) (isnB + 1) [] 0 ws wr client) (hacked : ws.acked = 0)
    (hstream : wr.stream = []) (hmngr : client.mngr = pkt :: rest)
    (hpkt : Bare (isnA + 1) (isnB + 1) pkt) (hSYN : pkt.skb.tcph.SYN = false)
    (hserver : SynReceived isnB (isnA + 1) server) (hmngr' : server.mngr = [])
    (hok : EventOk ⟨client, server⟩ e) :
    ∃ d, step isnB ⟨client, server⟩ e = .ok d ∧ Phase isnA isnB d := by
  obtain ⟨hboundA, hboundB, hevent⟩ := hok
  cases e with
  | toServer =>
      exact phase_of_ack hclient hout hacked hstream hmngr hpkt hSYN hserver hmngr' hboundA hboundB
  | toClient =>
      exact ⟨_, step_toClient_nil hmngr', .ack hclient hout hacked hstream hmngr hpkt hSYN hserver
        hmngr'⟩
  | client e =>
      obtain ⟨client', hstep, ws₁, wr₁, hclient', hout', hacked', hstream', suffix, hsuffix⟩ :=
        local_step isnB [pkt]
          ⟨ws, wr, hclient, hout, hacked, hstream, rest, hmngr.symm⟩ hevent
      exact ⟨_, step_client hstep, .ack hclient' hout' hacked' hstream' hsuffix.symm hpkt hSYN
        hserver hmngr'⟩
  | server e =>
      exact ⟨_, step_server (hserver.toQuiet.step hevent), .ack hclient hout hacked hstream hmngr
        hpkt hSYN hserver hmngr'⟩

/-- An event of the open connection. -/
theorem Phase.step_opened {client server : Tcb} {ws ws' : SendWindow Byte}
    {wr wr' : ReceiveWindow Byte} {e : Event}
    (hclient : Side (isnA + 1) (isnB + 1) ws wr client)
    (hserver : Side (isnB + 1) (isnA + 1) ws' wr' server)
    (hout : Outgoing (isnA + 1) (isnB + 1) wr'.stream ws'.acked ws wr client)
    (hback : Outgoing (isnB + 1) (isnA + 1) wr.stream ws.acked ws' wr' server)
    (hok : EventOk ⟨client, server⟩ e) :
    ∃ d, step isnB ⟨client, server⟩ e = .ok d ∧ Phase isnA isnB d := by
  obtain ⟨hboundA, hboundB, hevent⟩ := hok
  cases e with
  | toServer =>
      rcases hmngr : client.mngr with _ | ⟨pkt, rest⟩
      · exact ⟨_, step_toServer_nil hmngr, .opened hclient hserver hout hback⟩
      · obtain ⟨server', ws₁, wr₁, hprocess, hserver', hout', hback', -⟩ :=
          hclient.deliver isnB hserver hout hback hboundA hboundB hmngr
        exact ⟨_, step_toServer hmngr hprocess, .opened (hclient.setMngr rest) hserver' hout'
          hback'⟩
  | toClient =>
      rcases hmngr : server.mngr with _ | ⟨pkt, rest⟩
      · exact ⟨_, step_toClient_nil hmngr, .opened hclient hserver hout hback⟩
      · obtain ⟨client', ws₁, wr₁, hprocess, hclient', hback', hout', -⟩ :=
          hserver.deliver isnB hclient hback hout hboundB hboundA hmngr
        exact ⟨_, step_toClient hmngr hprocess, .opened hclient' (hserver.setMngr rest) hout'
          hback'⟩
  | client e =>
      obtain ⟨client', hstep, ws₁, wr₁, hclient', hout', hacked, hstream, -⟩ :=
        local_step isnB []
          ⟨ws, wr, hclient, hout, rfl, rfl, List.nil_prefix⟩ hevent
      rw [← hacked, ← hstream] at hback
      exact ⟨_, step_client hstep, .opened hclient' hserver hout' hback⟩
  | server e =>
      obtain ⟨server', hstep, ws₁, wr₁, hserver', hback', hacked, hstream, -⟩ :=
        local_step isnB []
          ⟨ws', wr', hserver, hback, rfl, rfl, List.nil_prefix⟩ hevent
      rw [← hacked, ← hstream] at hout
      exact ⟨_, step_server hstep, .opened hclient hserver' hout hback'⟩

/-- **One event keeps the phases, and does not abort.**  A delivery may lead
from one phase to the next.  A local event before the connection callback does
nothing (`Quiet.step`), as the application does not hold the block. -/
theorem Phase.step {d : Duplex} {e : Event} (h : Phase isnA isnB d) (hok : EventOk d e) :
    ∃ d', Duplex.step isnB d e = .ok d' ∧ Phase isnA isnB d' := by
  cases h with
  | syn hclient hmngr hs hserver hstate hpq hmngr' =>
      cases e with
      | toServer => exact phase_of_syn hclient hmngr hs hserver hstate hmngr'
      | toClient =>
          exact ⟨_, step_toClient_nil hmngr', .syn hclient hmngr hs hserver hstate hpq hmngr'⟩
      | client e =>
          exact ⟨_, step_client (hclient.toQuiet.step hok.2.2),
            .syn hclient hmngr hs hserver hstate hpq hmngr'⟩
      | server e =>
          exact ⟨_, step_server (hserver.step hok.2.2),
            .syn hclient hmngr hs hserver hstate hpq hmngr'⟩
  | synAck hclient hmngr hserver hmngr' hpkt hSYN =>
      cases e with
      | toServer =>
          exact ⟨_, step_toServer_nil hmngr, .synAck hclient hmngr hserver hmngr' hpkt hSYN⟩
      | toClient => exact phase_of_synAck hclient hmngr hserver hmngr' hpkt hSYN hok.1
      | client e =>
          exact ⟨_, step_client (hclient.toQuiet.step hok.2.2),
            .synAck hclient hmngr hserver hmngr' hpkt hSYN⟩
      | server e =>
          exact ⟨_, step_server (hserver.toQuiet.step hok.2.2),
            .synAck hclient hmngr hserver hmngr' hpkt hSYN⟩
  | ack hclient hout hacked hstream hmngr hpkt hSYN hserver hmngr' =>
      exact Phase.step_ack hclient hout hacked hstream hmngr hpkt hSYN hserver hmngr' hok
  | opened hclient hserver hout hback => exact Phase.step_opened hclient hserver hout hback hok

end Step

/-! ## Runs

The result, and a run in which data is on its way. -/

/-- **End-to-end stream integrity.**  In every state that the two blocks reach,
in both directions, what the reader has got, the receive queue, the texts in
the channel and the unsent part of the send queue are together what was
written; and no run aborts.

The events are those that `EventOk` admits in the state in which they happen.
The initial state may have anything in the members the constructor leaves
alone. -/
theorem duplex_stream_integrity {isnA isnB : BitVec 32} {d₀ : Duplex} {es : List Event}
    (hstart : Connecting isnA d₀) (hok : Admitted (step isnB) EventOk d₀ es) :
    ∃ d, run isnB d₀ es = .ok d ∧ Intact d.client d.server ∧ Intact d.server d.client := by
  obtain ⟨d, hrun, hphase⟩ :=
    EventSystem.run_total (fun _ _ hphase => Phase.step hphase) (hstart.phase isnB) hok
  exact ⟨d, hrun, hphase.intact⟩

/-- The client writes three bytes in its connection callback, with a send MSS
of two; the server reads the first two while the third is on its way. -/
def exchange : List Event :=
  [.toServer, .toClient, .client (.task 0 [.write [0x61, 0x62, 0x63] 1]), .client (.task 0 []),
    .toServer, .server (.task 0 [.read 16 2]), .toServer]

/-- A client whose send MSS happens to be two, and a server. -/
def openingMss : Duplex :=
  ⟨(create default default .connecting .connecting { (default : SendState) with mss := 2 }
    default).afterConnect 7, listening⟩

theorem connecting_openingMss : Connecting 7 openingMss :=
  .mk _ _ _ _ _ _ _ _ (startConnecting_eq _ 7)

theorem exchange_admitted : Admitted (step 9) EventOk openingMss exchange := by
  refine .cons ⟨fun _ => by decide, fun h => (h rfl).elim, trivial⟩ rfl ?_
  refine .cons ⟨fun _ => by decide, fun _ => by decide, trivial⟩ rfl ?_
  refine .cons ⟨fun _ => by decide, fun _ => by decide, fun task hk _ => ?_⟩ rfl ?_
  · cases hk
    exact .single ⟨List.mem_singleton.mpr rfl, _, rfl, by decide⟩
  refine .cons ⟨fun _ => by decide, fun _ => by decide, fun task hk hne => ?_⟩ rfl ?_
  · cases hk
    exact (hne rfl).elim
  refine .cons ⟨fun _ => by decide, fun _ => by decide, trivial⟩ rfl ?_
  refine .cons ⟨fun _ => by decide, fun _ => by decide, fun task hk _ => ?_⟩ rfl ?_
  · cases hk
    exact .single ⟨List.mem_singleton.mpr rfl, rfl, fun _ _ hmem => by cases hmem⟩
  exact .single ⟨fun _ => by decide, fun _ => by decide, trivial⟩

theorem exchange_intact : Connecting 7 openingMss ∧
    Admitted (step 9) EventOk openingMss exchange ∧
    ∃ d, run 9 openingMss exchange = .ok d ∧ Intact d.client d.server ∧
      Intact d.server d.client ∧ d.server.handed = [0x61, 0x62] ∧
      payload d.client.mngr = [0x63] := by
  obtain ⟨d, hrun, hout, hback⟩ := duplex_stream_integrity connecting_openingMss exchange_admitted
  refine ⟨connecting_openingMss, exchange_admitted, d, hrun, hout, hback, ?_⟩
  cases hrun
  exact ⟨rfl, rfl⟩

end Duplex

end Mstack
