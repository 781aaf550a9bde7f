import Mstack.Tcp.Integrity

/-!
# The send MSS

`send_.state.mss` is written in two places, both in the handshake: where a SYN
arrives in LISTEN and where a SYN-ACK arrives in SYN-SENT, and in both only if
the segment has the option.  The constructor leaves it alone.

A block sends an MSS in its SYN and none in its SYN-ACK.  So between two blocks
of this program the server ends up with 1446, the value `start_connecting`
announces, and the client with **what it started with**, which no line of the
program determines.  The results that need a client to send anything have a
hypothesis about it (`Tcp.Delivery`, `Tcp.Return`).
-/

namespace Mstack

namespace Tcb

/-- The options a block in LISTEN or SYN-SENT is sent by a block like itself:
the four of `start_connecting`, or none. -/
def OffersMss (t : Tcb) (seg : Segment) : Prop :=
  (t.state = .listen → decodeOptions seg.opts = .ok [.mss 1446]) ∧
    (t.state = .synSent → decodeOptions seg.opts = .ok [])

theorem AckOutcome.mss_eq {t : Tcb} {seg : Segment} {flow : Flow} (h : AckOutcome t seg flow) :
    flow.block.send.state.mss = t.send.state.mss := by
  cases h with
  | data _ _ pq _ _ =>
      obtain ⟨n, hn⟩ := (t.ackData pq seg.tcph.ackNo).ackNextState_eq
      rw [hn]
      rfl
  | _ => rfl

theorem TextOutcome.mss_eq {t t' : Tcb} {seg : Segment} (h : TextOutcome t seg t') :
    t'.send.state.mss = t.send.state.mss := by
  rw [h.send_eq]

theorem FinOutcome.mss_eq {t t' : Tcb} {seg : Segment} (h : FinOutcome t seg t') :
    t'.send.state.mss = t.send.state.mss := by
  cases h <;> rfl

/-- **What an arriving segment does to the MSS**: the SYN sets it, and nothing
else does. -/
theorem process_mss {isn : BitVec 32} {t t' : Tcb} {seg : Segment} (hoffers : t.OffersMss seg)
    (hprocess : t.process isn seg = .ok t') :
    t' = t ∨ (t.state ≠ .listen ∧ t'.send.state.mss = t.send.state.mss) ∨
      (t.state = .listen ∧ t'.send.state.mss = 1446) := by
  have hsynchronized (hsync : t.state.synchronized = true) : t.state ≠ .listen := by
    intro hlisten
    rw [hlisten] at hsync
    cases hsync
  cases process_cases hprocess with
  | unchanged _ => exact .inl rfl
  | passiveOpen hstate _ _ _ opts hopts =>
      obtain rfl := Except.ok.inj (hopts.symm.trans (hoffers.1 hstate))
      exact .inr (.inr ⟨hstate, rfl⟩)
  | activeOpen hstate _ _ _ _ opts hopts =>
      obtain rfl := Except.ok.inj (hopts.symm.trans (hoffers.2 hstate))
      exact .inr (.inl ⟨by rw [hstate]; decide, rfl⟩)
  | returned hsync _ hack => exact .inr (.inl ⟨hsynchronized hsync, hack.mss_eq⟩)
  | continued hsync _ hack htext hfin =>
      exact .inr (.inl ⟨hsynchronized hsync, (hfin.mss_eq.trans htext.mss_eq).trans hack.mss_eq⟩)

/-- No other event touches it. -/
theorem step_mss {isn : BitVec 32} {t t' : Tcb} {e : Event} (hok : LocalOk t e)
    (hstep : step isn t e = .ok t') : t'.send.state.mss = t.send.state.mss := by
  refine step_induction (P := fun u => u.send.state.mss = t.send.state.mss) ?_ ?_ ?_ ?_ t e t' rfl
    hok hstep
  · exact fun _ _ _ _ hfalse => hfalse.elim
  · intro u c u' hu _ hcall
    cases appCall_cases hcall <;> exact hu
  · intro u k task hu _
    rw [enterTask_send]
    exact hu
  · exact fun u pq hu _ => hu

end Tcb

namespace Duplex

open Tcb

variable {isnA isnB : BitVec 32} {d : Duplex} {pkt : TcpPacket} {rest : List TcpPacket}

/-- What a server in LISTEN is sent are the options of the SYN. -/
theorem Phase.offers_toServer (h : Phase isnA isnB d) (hmngr : d.client.mngr = pkt :: rest) :
    d.server.OffersMss pkt.skb := by
  cases h with
  | syn _ hsyn _ _ hstate _ _ =>
      obtain ⟨rfl, rfl⟩ := List.cons_eq_cons.mp (hsyn.symm.trans hmngr)
      refine ⟨fun _ => decodeOptions_syn, fun hsent => ?_⟩
      rw [show Duplex.server _ = _ from rfl, hstate] at hsent
      cases hsent
  | synAck _ hnil _ _ _ _ => cases hnil.symm.trans hmngr
  | ack _ _ _ _ _ _ _ hserver _ =>
      refine ⟨fun hs => ?_, fun hs => ?_⟩ <;> cases hserver.state.symm.trans hs
  | opened _ hserver _ _ =>
      refine ⟨fun hs => ?_, fun hs => ?_⟩ <;> cases hserver.established.symm.trans hs

/-- What a client in SYN-SENT is sent are no options. -/
theorem Phase.offers_toClient (h : Phase isnA isnB d) (hmngr : d.server.mngr = pkt :: rest) :
    d.client.OffersMss pkt.skb := by
  cases h with
  | syn _ _ _ _ _ _ hnil => cases hnil.symm.trans hmngr
  | synAck hclient _ _ hsynAck hpkt _ =>
      obtain ⟨rfl, rfl⟩ := List.cons_eq_cons.mp (hsynAck.symm.trans hmngr)
      refine ⟨fun hs => ?_, fun _ => by rw [hpkt.opts]; rfl⟩
      cases hclient.state.symm.trans hs
  | ack _ _ _ _ _ _ _ _ hnil => cases hnil.symm.trans hmngr
  | opened hclient _ _ _ =>
      refine ⟨fun hs => ?_, fun hs => ?_⟩ <;> cases hclient.established.symm.trans hs

end Duplex

end Mstack
