import Mstack.Tcp.Integrity

/-!
# Empty segments and the window test

The rule quoted in the source for an acknowledgement is `<SEQ=SND.NXT>`;
`make_packet` writes SND.UNA.

SND.UNA is what the sender *knows* to be confirmed, and confirmations take
their time: RCV.NXT of the other side counts the bytes its readers have got.
As soon as the peer's reader is ahead of what the sender knew, the number of an
empty segment lies below RCV.NXT, and the window test turns the acknowledgement
away with everything it says.

### Main results

* `delivered_segments_pass_iff` — every segment delivered between two
  ESTABLISHED blocks passes the window test if and only if no empty one comes
  too late in this sense.  Text always passes, as it starts at the frontier.
* `crossing_acknowledgement_refused` — both sides write, and an acknowledgement
  crosses with data.

### What is load-bearing

An empty segment is **old when it arrives**: its number was SND.UNA when it was
built, and SND.UNA may have moved since.  `PureAcks` keeps the numbers of the
empty segments in a channel between `base` and the present SND.UNA, which is
what makes the upper end of the window test pass.
-/

namespace Mstack

namespace Tcb

open EventSystem (bind_eq_ok)

/-- The empty segments in the channel out of a side carry numbers from `base`
to SND.UNA. -/
def PureAcks (base : BitVec 32) (t : Tcb) : Prop :=
  t.state = .established → ∀ pkt ∈ t.mngr, pkt.skb.text = [] →
    base ≤ pkt.skb.tcph.seqNo ∧ pkt.skb.tcph.seqNo ≤ t.send.state.seqNrUnack

theorem pureAcks_of_state {base : BitVec 32} {t : Tcb} (hstate : t.state ≠ .established) :
    PureAcks base t := fun hs => (hstate hs).elim

section PureAcks

variable {base base' : BitVec 32} {ws ws' : SendWindow Byte} {wr wr' : ReceiveWindow Byte}
  {t t' : Tcb}

/-- SND.UNA is at or behind `base`. -/
theorem Side.base_le_unack (h : Side base base' ws wr t) : base ≤ t.send.state.seqNrUnack := by
  rw [h.sends.unack, BitVec.le_def, h.toNat_add ws.acked_le]
  exact Nat.le_add_right _ _

/-- An empty packet carries SND.UNA. -/
theorem packetOut_seqNo_of_empty {pq : CircularBuffer Byte}
    (htext : (t.packetOut pq).skb.text = []) :
    (t.packetOut pq).skb.tcph.seqNo = t.send.state.seqNrUnack := by
  have hlen := t.packetOut_text_length pq
  rw [htext, List.length_nil] at hlen
  rw [packetOut_seqNo, if_pos hlen.symm]

/-- **A local event** leaves SND.UNA alone and sends what it says.  An empty
packet is sent where a read completes and nothing is unsent. -/
theorem PureAcks.local_step {isn : BitVec 32} {e : Event} (h : PureAcks base t)
    (hside : Side base base' ws wr t) (hok : LocalOk t e) (hstep : step isn t e = .ok t') :
    PureAcks base t' := by
  have hbase := hside.base_le_unack
  have key : t'.send.state.seqNrUnack = t.send.state.seqNrUnack ∧
      ∀ pkt ∈ t'.mngr, pkt.skb.text = [] →
        base ≤ pkt.skb.tcph.seqNo ∧ pkt.skb.tcph.seqNo ≤ t.send.state.seqNrUnack := by
    refine step_induction (P := fun u => u.send.state.seqNrUnack = t.send.state.seqNrUnack ∧
      ∀ pkt ∈ u.mngr, pkt.skb.text = [] → base ≤ pkt.skb.tcph.seqNo ∧
        pkt.skb.tcph.seqNo ≤ t.send.state.seqNrUnack) ?_ ?_ ?_ ?_ t e t'
      ⟨rfl, h hside.established⟩ hok hstep
    · exact fun _ _ _ _ hfalse => hfalse.elim
    · intro u c u' hu _ hcall
      cases appCall_cases hcall <;> exact hu
    · intro u k task hu _
      rw [enterTask_send, enterTask_mngr]
      exact hu
    · intro u pq hu _
      refine ⟨hu.1, fun pkt hpkt htext => ?_⟩
      rw [afterPacket_mngr] at hpkt
      rcases List.mem_append.mp hpkt with hpkt | hpkt
      · exact hu.2 pkt hpkt htext
      · rw [List.mem_singleton.mp hpkt] at htext ⊢
        rw [packetOut_seqNo_of_empty htext, hu.1]
        exact ⟨hbase, BitVec.le_refl _⟩
  intro _ pkt hpkt htext
  rw [key.1]
  exact key.2 pkt hpkt htext

/-- The channel only loses packets. -/
theorem PureAcks.setMngr {pkt : TcpPacket} {rest : List TcpPacket} (h : PureAcks base t)
    (hmngr : t.mngr = pkt :: rest) : PureAcks base { t with mngr := rest } := by
  intro hstate p hp
  exact h hstate p (by rw [hmngr]; exact List.mem_cons_of_mem pkt hp)

/-- SND.UNA only grows. -/
theorem PureAcks.mono (h : PureAcks base t) (hside : Side base base' ws wr t)
    (hside' : Side base base' ws' wr' t') (hmngr : t'.mngr = t.mngr)
    (hacked : ws.acked ≤ ws'.acked) : PureAcks base t' := by
  intro _ pkt hpkt htext
  rw [hmngr] at hpkt
  obtain ⟨hlo, hhi⟩ := h hside.established pkt hpkt htext
  refine ⟨hlo, BitVec.le_trans hhi ?_⟩
  rw [hside.sends.unack, hside'.sends.unack, BitVec.le_def, hside.toNat_add ws.acked_le,
    hside'.toNat_add ws'.acked_le]
  omega

/-- What has been read of the sender's stream does not exceed SEG.SEQ of an
empty segment. -/
def Covers (base : BitVec 32) (r : Tcb) (pkt : TcpPacket) : Prop :=
  pkt.skb.text = [] → r.handed.length ≤ (pkt.skb.tcph.seqNo - base).toNat

/-- **The window test for the oldest packet of a channel.**  It passes if and
only if the readers here have got no more than the number of an empty packet
says; for a packet with text that is always so. -/
theorem Side.check_iff {s r : Tcb} {pkt : TcpPacket} {rest : List TcpPacket}
    (hs : Side base base' ws wr s) (hr : Side base' base ws' wr' r)
    (hout : Outgoing base base' wr'.stream ws'.acked ws wr s)
    (hback : Outgoing base' base wr.stream ws.acked ws' wr' r) (hbs : Bounded s)
    (hpure : PureAcks base s) (hmngr : s.mngr = pkt :: rest) :
    r.tcpCheckSegment pkt.skb.tcph (BitVec.ofNat 16 pkt.skb.text.length) = true ↔
      Covers base r pkt := by
  obtain ⟨htextLe, -⟩ := Outgoing.text_le hs hr hout hback hmngr
  have hchannel := hout.channel
  rw [hmngr] at hchannel
  obtain ⟨hplain, hseq, k, hlo, hack, hrest⟩ := hchannel
  by_cases htext : pkt.skb.text = []
  · -- An empty packet: its number is between SND.UNA and SND.NXT of its sender.
    obtain ⟨hlower, hupper⟩ := hpure hs.established pkt (by rw [hmngr]; simp) htext
    have hsum := wr'.handed_add_buffered
    have hconfirmed := hback.channel.lo_le_hi
    have hhanded : r.handed.length = wr'.handed := by
      rw [hr.receives.copied, wr'.delivered_length]
    have hnext : r.rcv.state.next.toNat = base.toNat + wr'.handed := by
      rw [hr.receives.next]; exact hs.toNat_add (by omega)
    have hunack : s.send.state.seqNrUnack.toNat = base.toNat + ws.acked := by
      rw [hs.sends.unack]; exact hs.toNat_add ws.acked_le
    have hnxt : s.send.state.seqNrNext.toNat = base.toNat + ws.sent := by
      rw [hs.sends.next]; exact hs.toNat_add le_rfl
    have hbound := (hbs (by rw [hs.established]; simp)).2
    have hwide : (r.rcv.state.next + 0xFAF0).toNat = r.rcv.state.next.toNat + 0xFAF0 :=
      SerialNumber.toNat_add_ofNat _ (n := 0xFAF0) (by omega)
    rw [htext, List.length_nil, Covers]
    rw [show BitVec.ofNat 16 0 = 0 from rfl,
      tcpCheckSegment_empty hr.toOpen.synchronized hr.window, BitVec.lt_def, hwide, BitVec.le_def,
      BitVec.toNat_sub_of_le hlower, hhanded, hnext]
    rw [BitVec.le_def] at hlower hupper
    simp only [htext, forall_true_left]
    omega
  · have hrange := (hr.ack_range hback hlo hrest.lo_le_hi hack).2.2.1
    -- A packet with text is taken, so the test has passed.
    have htakes := hs.takes_text hr hbs hplain htext htextLe (hseq htext) hrange
    refine iff_of_true ?_ fun hnil => (htext hnil).elim
    simp only [takes, handles, reachesAckStep, Bool.and_eq_true] at htakes
    exact htakes.1.1.1.1

end PureAcks

end Tcb

namespace Duplex

open Tcb
open EventSystem (Admitted)

/-- Both channels carry what they have to. -/
structure Pure (isnA isnB : BitVec 32) (d : Duplex) : Prop where
  client : PureAcks (isnA + 1) d.client
  server : PureAcks (isnB + 1) d.server

section Step

variable {isnA isnB : BitVec 32}

/-- An event of the open connection. -/
theorem Pure.step_opened {client server : Tcb} {d : Duplex} {ws ws' : SendWindow Byte}
    {wr wr' : ReceiveWindow Byte} {e : Event}
    (hclient : Side (isnA + 1) (isnB + 1) ws wr client)
    (hserver : Side (isnB + 1) (isnA + 1) ws' wr' server)
    (hout : Outgoing (isnA + 1) (isnB + 1) wr'.stream ws'.acked ws wr client)
    (hback : Outgoing (isnB + 1) (isnA + 1) wr.stream ws.acked ws' wr' server)
    (hok : EventOk ⟨client, server⟩ e) (h : Pure isnA isnB ⟨client, server⟩)
    (hstep : step isnB ⟨client, server⟩ e = .ok d) : Pure isnA isnB d := by
  obtain ⟨hboundA, hboundB, hevent⟩ := hok
  cases e with
  | toServer =>
      rcases hmngr : client.mngr with _ | ⟨pkt, rest⟩
      · rw [step_toServer_nil hmngr] at hstep
        cases hstep
        exact h
      · obtain ⟨server', ws₁, wr₁, hprocess, hserver', -, -, hmngr', hacked⟩ :=
          hclient.deliver isnB hserver hout hback hboundA hboundB hmngr
        rw [step_toServer hmngr hprocess] at hstep
        cases hstep
        exact ⟨h.client.setMngr hmngr, h.server.mono hserver hserver' hmngr' hacked⟩
  | toClient =>
      rcases hmngr : server.mngr with _ | ⟨pkt, rest⟩
      · rw [step_toClient_nil hmngr] at hstep
        cases hstep
        exact h
      · obtain ⟨client', ws₁, wr₁, hprocess, hclient', -, -, hmngr', hacked⟩ :=
          hserver.deliver isnB hclient hback hout hboundB hboundA hmngr
        rw [step_toClient hmngr hprocess] at hstep
        cases hstep
        exact ⟨h.client.mono hclient hclient' hmngr' hacked, h.server.setMngr hmngr⟩
  | client e =>
      obtain ⟨client', hclient', hd⟩ := EventSystem.bind_eq_ok.mp hstep
      cases hd
      exact ⟨h.client.local_step hclient hevent hclient', h.server⟩
  | server e =>
      obtain ⟨server', hserver', hd⟩ := EventSystem.bind_eq_ok.mp hstep
      cases hd
      exact ⟨h.client, h.server.local_step hserver hevent hserver'⟩

/-- **One event keeps both channels.**  A block that has not opened has nothing
to keep, as `PureAcks` speaks of ESTABLISHED only; when the client opens, the
ACK of the handshake is its one empty packet. -/
theorem Pure.step {d d' : Duplex} {e : Event} (h : Pure isnA isnB d) (hphase : Phase isnA isnB d)
    (hok : EventOk d e) (hstep : step isnB d e = .ok d') : Pure isnA isnB d' := by
  cases hphase with
  | @syn client server s hclient hmngr hs hserver hstate hpq hmngr' =>
      cases e with
      | toServer =>
          obtain ⟨server', pkt, hprocess, hreceived, -⟩ :=
            process_syn_quiet isnA isnB hserver hstate hs
          rw [step_toServer hmngr hprocess] at hstep
          cases hstep
          exact ⟨h.client.setMngr hmngr, pureAcks_of_state (by rw [hreceived.state]; simp)⟩
      | toClient => rw [step_toClient_nil hmngr'] at hstep; cases hstep; exact h
      | client e => rw [step_client (hclient.toQuiet.step hok.2.2)] at hstep; cases hstep; exact h
      | server e => rw [step_server (hserver.step hok.2.2)] at hstep; cases hstep; exact h
  | @synAck client server pkt hclient hmngr hserver hmngr' hpkt hSYN =>
      cases e with
      | toServer => rw [step_toServer_nil hmngr] at hstep; cases hstep; exact h
      | toClient =>
          obtain ⟨-, hnext⟩ := hok.1 (by rw [hclient.state]; simp)
          rw [hclient.next] at hnext
          have hunack := (hok.1 (by rw [hclient.state]; simp)).1
          rw [hclient.unack] at hunack
          -- The discipline on numbers keeps the SYN-ACK inside the test of SYN-SENT.
          have hwrap : isnA ≤ isnA + 1 := (le_succ_iff isnA).mpr (by omega)
          obtain ⟨client', pkt', hprocess, hfresh, hsent, hbare, -⟩ :=
            process_synAck_sent isnB hclient hpkt hSYN hwrap
          rw [step_toClient hmngr' hprocess] at hstep
          cases hstep
          refine ⟨?_, h.server.setMngr hmngr'⟩
          -- The ACK of the handshake carries the number of the first byte.
          intro _ p hp _
          rw [hsent, hmngr, List.nil_append, List.mem_singleton] at hp
          rw [hp, hbare.seqNo, hfresh.unack]
          exact ⟨BitVec.le_refl _, BitVec.le_refl _⟩
      | client e => rw [step_client (hclient.toQuiet.step hok.2.2)] at hstep; cases hstep; exact h
      | server e => rw [step_server (hserver.toQuiet.step hok.2.2)] at hstep; cases hstep; exact h
  | @ack client server pkt rest ws wr hclient hout hacked hstream hmngr hpkt hSYN hserver hmngr' =>
      cases e with
      | toServer =>
          have hprocess := process_ack_received isnB hserver hpkt hSYN
          refine ⟨?_, ?_⟩
          · split_ifs at hprocess <;> rw [step_toServer hmngr hprocess] at hstep <;> cases hstep <;>
              exact h.client.setMngr hmngr
          · -- The server has sent nothing behind its SYN-ACK.
            split_ifs at hprocess <;> rw [step_toServer hmngr hprocess] at hstep <;> cases hstep <;>
              exact fun _ p hp => absurd (show p ∈ server.mngr from hp) (by rw [hmngr']; simp)
      | toClient => rw [step_toClient_nil hmngr'] at hstep; cases hstep; exact h
      | client e =>
          obtain ⟨client', hclient', hd⟩ := EventSystem.bind_eq_ok.mp hstep
          cases hd
          exact ⟨h.client.local_step hclient hok.2.2 hclient', h.server⟩
      | server e => rw [step_server (hserver.toQuiet.step hok.2.2)] at hstep; cases hstep; exact h
  | opened hclient hserver hout hback =>
      exact Pure.step_opened hclient hserver hout hback hok h hstep

end Step

/-- The oldest packet from `s` passes the window test of `r`, if both are in
ESTABLISHED. -/
def PassesCheck (s r : Tcb) : Prop :=
  ∀ pkt rest, s.mngr = pkt :: rest → s.state = .established → r.state = .established →
    r.tcpCheckSegment pkt.skb.tcph (BitVec.ofNat 16 pkt.skb.text.length) = true

/-- If the oldest packet from `s` is empty and both are in ESTABLISHED, the
readers of `r` have got no more than the sender knew to be confirmed. -/
def InTime (base : BitVec 32) (s r : Tcb) : Prop :=
  ∀ pkt rest, s.mngr = pkt :: rest → s.state = .established → r.state = .established →
    Covers base r pkt

/-- A delivery that passes the window test; every other event. -/
def DeliveryPasses (d : Duplex) : Event → Prop
  | .toServer => PassesCheck d.client d.server
  | .toClient => PassesCheck d.server d.client
  | .client _ => True
  | .server _ => True

/-- A delivery that comes in time; every other event. -/
def DeliveryInTime (isnA isnB : BitVec 32) (d : Duplex) : Event → Prop
  | .toServer => InTime (isnA + 1) d.client d.server
  | .toClient => InTime (isnB + 1) d.server d.client
  | .client _ => True
  | .server _ => True

theorem Phase.delivery_iff {isnA isnB : BitVec 32} {d : Duplex} {e : Event}
    (hphase : Phase isnA isnB d) (hpure : Pure isnA isnB d) (hok : EventOk d e) :
    DeliveryPasses d e ↔ DeliveryInTime isnA isnB d e := by
  by_cases hboth : d.client.state = .established ∧ d.server.state = .established
  · cases hphase with
    | syn hclient => rw [hclient.state] at hboth; cases hboth.1
    | synAck hclient => rw [hclient.state] at hboth; cases hboth.1
    | ack _ _ _ _ _ _ _ hserver => rw [hserver.state] at hboth; cases hboth.2
    | opened hclient hserver hout hback =>
        cases e with
        | toServer =>
            refine forall_congr' fun pkt => forall_congr' fun rest => ?_
            refine forall_congr' fun hmngr => forall_congr' fun _ => forall_congr' fun _ => ?_
            exact hclient.check_iff hserver hout hback hok.1 hpure.client hmngr
        | toClient =>
            refine forall_congr' fun pkt => forall_congr' fun rest => ?_
            refine forall_congr' fun hmngr => forall_congr' fun _ => forall_congr' fun _ => ?_
            exact hserver.check_iff hclient hback hout hok.2.1 hpure.server hmngr
        | client e => exact Iff.rfl
        | server e => exact Iff.rfl
  · cases e with
    | toServer =>
        exact iff_of_true (fun _ _ _ hs hr => (hboth ⟨hs, hr⟩).elim)
          (fun _ _ _ hs hr => (hboth ⟨hs, hr⟩).elim)
    | toClient =>
        exact iff_of_true (fun _ _ _ hs hr => (hboth ⟨hr, hs⟩).elim)
          (fun _ _ _ hs hr => (hboth ⟨hr, hs⟩).elim)
    | client e => exact Iff.rfl
    | server e => exact Iff.rfl

theorem Connecting.pure {isnA : BitVec 32} {d : Duplex} (h : Connecting isnA d)
    (isnB : BitVec 32) : Pure isnA isnB d := by
  obtain ⟨remoteEp, localEp, remoteEp', localEp', junkSend, junkSend', junkRcv, junkRcv', h⟩ := h
  rw [startConnecting_eq] at h
  cases h
  exact ⟨pureAcks_of_state nofun, pureAcks_of_state nofun⟩

/-- **When every delivered segment passes the window test.**  For every run of
the two blocks in which no sequence number wraps: each segment that is
delivered between the two ESTABLISHED blocks, with or without text, passes the
receiver's window test if and only if no empty one is delivered after the
receiver's readers have got more bytes than the sender knew to be confirmed
when it sent the segment. -/
theorem delivered_segments_pass_iff {isnA isnB : BitVec 32} {d₀ : Duplex} {es : List Event}
    (hstart : Connecting isnA d₀) (hok : Admitted (step isnB) EventOk d₀ es) :
    Admitted (step isnB) DeliveryPasses d₀ es ↔
      Admitted (step isnB) (DeliveryInTime isnA isnB) d₀ es := by
  obtain ⟨d, hrun, -⟩ :=
    EventSystem.run_total (fun _ _ hphase => Phase.step hphase) (hstart.phase isnB) hok
  refine EventSystem.admitted_iff (P := fun d => Phase isnA isnB d ∧ Pure isnA isnB d) ?_
    ⟨hstart.phase isnB, hstart.pure isnB⟩ hok hrun
  rintro s e s' ⟨hphase, hpure⟩ hoke hstep
  obtain ⟨s'', hstep', hphase'⟩ := hphase.step hoke
  rw [hstep] at hstep'
  cases hstep'
  exact ⟨⟨hphase', hpure.step hphase hoke hstep⟩, hphase.delivery_iff hpure hoke⟩

theorem exchange_passes : Admitted (step 9) EventOk openingMss exchange ∧
    Admitted (step 9) DeliveryPasses openingMss exchange := by
  refine ⟨exchange_admitted,
    (delivered_segments_pass_iff connecting_openingMss exchange_admitted).mpr ?_⟩
  refine .cons (fun _ _ _ hs => by cases hs) rfl ?_
  refine .cons (fun _ _ _ hs => by cases hs) rfl ?_
  refine .cons trivial rfl ?_
  refine .cons trivial rfl ?_
  refine .cons (fun _ _ _ _ hr => by cases hr) rfl ?_
  refine .cons trivial rfl ?_
  refine .single fun pkt rest hmngr _ _ hnil => ?_
  cases hmngr
  cases hnil

/-- Both sides write.  The client gets the server's byte and acknowledges it
while its own two bytes are on their way; they arrive first, and a reader takes
them. -/
def crossing : List Event :=
  [.toServer, .toClient, .toServer, .server (.task 0 [.read 16 1, .write [0x7A] 2]),
    .server (.task 0 []), .client (.task 0 [.read 16 3, .write [0x61, 0x62] 4]),
    .client (.task 0 []), .toClient, .client (.task 0 []), .client (.task 0 []), .toServer]

/-- **An acknowledgement that the window test turns away.**  After `crossing`
the client's acknowledgement is next in the channel. -/
theorem crossing_acknowledgement_refused :
    Connecting 7 openingMss ∧ Admitted (step 9) EventOk openingMss (crossing ++ [.toServer]) ∧
    ¬ Admitted (step 9) DeliveryPasses openingMss (crossing ++ [.toServer]) := by
  refine ⟨connecting_openingMss, ?_, ?_⟩
  · refine .cons ⟨fun _ => by decide, fun h => (h rfl).elim, trivial⟩ rfl ?_
    refine .cons ⟨fun _ => by decide, fun _ => by decide, trivial⟩ rfl ?_
    refine .cons ⟨fun _ => by decide, fun _ => by decide, trivial⟩ rfl ?_
    refine .cons ⟨fun _ => by decide, fun _ => by decide, fun task hk _ => ?_⟩ rfl ?_
    · cases hk
      refine .cons ⟨List.mem_singleton.mpr rfl, rfl, fun _ _ hmem => by cases hmem⟩ rfl ?_
      exact .single ⟨List.mem_singleton.mpr rfl, _, rfl, by decide⟩
    refine .cons ⟨fun _ => by decide, fun _ => by decide, fun task hk hne => ?_⟩ rfl ?_
    · cases hk
      exact (hne rfl).elim
    refine .cons ⟨fun _ => by decide, fun _ => by decide, fun task hk _ => ?_⟩ rfl ?_
    · cases hk
      refine .cons ⟨List.mem_singleton.mpr rfl, rfl, fun _ _ hmem => by cases hmem⟩ rfl ?_
      exact .single ⟨List.mem_singleton.mpr rfl, _, rfl, by decide⟩
    refine .cons ⟨fun _ => by decide, fun _ => by decide, fun task hk hne => ?_⟩ rfl ?_
    · cases hk
      exact (hne rfl).elim
    refine .cons ⟨fun _ => by decide, fun _ => by decide, trivial⟩ rfl ?_
    refine .cons ⟨fun _ => by decide, fun _ => by decide, fun _ _ _ => trivial⟩ rfl ?_
    refine .cons ⟨fun _ => by decide, fun _ => by decide, fun _ _ _ => trivial⟩ rfl ?_
    refine .cons ⟨fun _ => by decide, fun _ => by decide, trivial⟩ rfl ?_
    exact .single ⟨fun _ => by decide, fun _ => by decide, trivial⟩
  · intro h
    obtain ⟨hlast, -⟩ := EventSystem.Admitted.of_append h
      (show run 9 openingMss crossing = .ok _ from rfl)
    have hpass := hlast _ _ rfl rfl rfl
    revert hpass
    decide

end Duplex

end Mstack
