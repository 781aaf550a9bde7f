import Mstack.Net.Encapsulation
import Mstack.Tcp.Conservation
import Mstack.Tcp.SendLoop

/-!
# The 16-bit length fields

A segment of `tcb_t` is measured three times: `tcp::process` writes the length
of the segment into the pseudo header, `ipv4::process` writes the length of the
datagram into `total_length`, and the receiving `tcb_t` takes the length of the
text as `seglen`.  All three are casts to `uint16_t` of a `size_t`.  The text
itself is bounded by the MSS and by the window of the peer, 16-bit numbers
both; but two headers are added to it.

* `TcpPacket.TrueLengths` — the three numbers, as they are written and read.
* `TcpPacket.trueLengths_iff` — the datagram is the largest of them, so that
  one comparison decides all three.
* `packetOut_trueLengths_iff` — a segment of `make_packet` is measured right
  exactly if the MSS or the unsent bytes leave room for the two headers.
* `length_fields_iff` — **this for whole runs.**

### From a packet to a run

`SegmentsShort` is the condition on one event: every segment that the event
makes is short, judged by the block it is made from.  Segments are made in
three places, after the ACK step of a segment, at the start of the send loop
and at the end of a read's callback, and the condition names the block at each
of them.  It is a condition on the state and the event alone, so that
`EventSystem.run_accumulates_iff` applies.

### What is load-bearing

A send loop makes many segments and is judged by its first
(`sendLoop_emittedTrue`): each takes from the unsent part, and the MSS stays.
A peer is needed that announces an MSS above 65495 *and* a window, and an
application that writes as much; all of it is allowed
(`large_segment_mismeasured`).
-/

namespace Mstack

open BigEndian EventSystem

/-! ## One packet

The three fields of a packet, through the layers that write them. -/

/-- The length fields that are written for a packet, and the one that is
computed from it on arrival, are true. -/
structure TcpPacket.TrueLengths (pkt : TcpPacket) : Prop where
  /-- `segment_len`, the last two bytes of the pseudo header. -/
  segment : ∀ junk raw, pkt.serialize junk = .ok raw →
    decode ((Tcp.pseudoHeader raw).drop 10) = raw.skb.payload.length
  /-- `total_length`. -/
  datagram : ∀ junk seq raw ip skb, pkt.serialize junk = .ok raw → Tcp.process raw = .ok ip →
    Ipv4.skbOut seq ip = .ok skb → ∃ h rest,
      Ipv4Header.consumeFromNet skb.payload = some (h, rest) ∧
        h.totalLength.toNat = skb.payload.length
  /-- `seglen`. -/
  text : (BitVec.ofNat 16 pkt.skb.text.length).toNat = pkt.skb.text.length

/-- The last field of the pseudo header. -/
theorem Tcp.decode_segmentLen (raw : RawTcpPacket) :
    decode ((pseudoHeader raw).drop 10) = raw.skb.payload.length % 2 ^ 16 := by
  have hfield : (pseudoHeader raw).drop 10 = put (BitVec.ofNat 16 raw.skb.payload.length) := by
    rw [pseudoHeader, List.drop_append_of_le_length (by simp), List.drop_eq_nil_of_le (by simp)]
    rfl
  rw [hfield, put, decode_encode, BitVec.toNat_ofNat]
  exact Nat.mod_mod_of_dvd _ (by decide)

/-- **The datagram is the largest of the three**: the fields are true exactly
if it is shorter than `2 ^ 16` bytes.  The cast cuts the others off no
earlier. -/
theorem TcpPacket.trueLengths_iff (pkt : TcpPacket) : pkt.TrueLengths ↔
    pkt.skb.opts.length + pkt.skb.text.length + TcpHeader.fixedSize + Ipv4Header.fixedSize
      < 2 ^ 16 := by
  -- What the layers make of the packet, with the header `ipv4::process` writes.
  have hdown (junk : ℕ → Byte) (seq : BitVec 16) : ∃ raw ip skb h rest,
      pkt.serialize junk = .ok raw ∧ Tcp.process raw = .ok ip ∧ Ipv4.skbOut seq ip = .ok skb ∧
      raw.skb.payload.length
        = TcpHeader.fixedSize + (pkt.skb.opts.length + pkt.skb.text.length) ∧
      Ipv4Header.consumeFromNet skb.payload = some (h, rest) ∧
      skb.payload.length = Ipv4Header.fixedSize + raw.skb.payload.length ∧
      h.totalLength.toNat = (raw.skb.payload.length + Ipv4Header.fixedSize) % 2 ^ 16 := by
    obtain ⟨raw, ip, front, ih, chsum, hraw, hip, hrawlen, hpayload, -, -, ⟨headerChsum, rfl⟩,
      hskb⟩ := pkt.layers_eq junk seq
    have hseg : raw.skb.payload.length
        = TcpHeader.fixedSize + (pkt.skb.opts.length + pkt.skb.text.length) := by
      rw [hrawlen]
      simp only [List.length_append, TcpHeader.length_produceToNet]
    have hsame : ip.skb.payload.length = raw.skb.payload.length := by
      rw [hpayload, hrawlen]
      simp only [List.length_append, TcpHeader.length_produceToNet]
    refine ⟨_, _, _, _, _, hraw, hip, hskb, hseg, Ipv4Header.consume_produce _ _, ?_, ?_⟩
    · rw [List.length_append, Ipv4Header.length_produceToNet, hsame]
    · simp only [Ipv4.ipv4h, BitVec.toNat_ofNat, hsame]
  constructor
  · intro htrue
    obtain ⟨raw, ip, skb, h, rest, hraw, hip, hskb, hseg, hread, hlen, htotal⟩ :=
      hdown (fun _ => 0) 0
    obtain ⟨h', rest', hread', htotal'⟩ := htrue.datagram _ _ _ _ _ hraw hip hskb
    rw [hread] at hread'
    cases hread'
    have hlt := Nat.mod_lt (raw.skb.payload.length + Ipv4Header.fixedSize) (Nat.two_pow_pos 16)
    omega
  · intro hfits
    refine ⟨fun junk raw hraw => ?_, fun junk seq raw ip skb hraw hip hskb => ?_, ?_⟩
    · obtain ⟨raw', -, -, -, -, hraw', -, -, hseg, -⟩ := hdown junk 0
      obtain rfl : raw' = raw := Except.ok.inj (hraw'.symm.trans hraw)
      rw [Tcp.decode_segmentLen, Nat.mod_eq_of_lt (by omega)]
    · obtain ⟨raw', ip', skb', h, rest, hraw', hip', hskb', hseg, hread, hlen, htotal⟩ :=
        hdown junk seq
      obtain rfl : raw' = raw := Except.ok.inj (hraw'.symm.trans hraw)
      obtain rfl : ip' = ip := Except.ok.inj (hip'.symm.trans hip)
      obtain rfl : skb' = skb := Except.ok.inj (hskb'.symm.trans hskb)
      exact ⟨h, rest, hread, by rw [htotal, Nat.mod_eq_of_lt (by omega)]; omega⟩
    · rw [BitVec.toNat_ofNat, Nat.mod_eq_of_lt (by omega)]

namespace Tcb

/-! ## The segments of a block

`make_packet` cuts the text where the MSS or the queue ends. -/

/-- The longest text that leaves room for the two headers in a datagram of
`2 ^ 16 - 1` bytes. -/
def maxText : ℕ := 65495

/-- A segment of this block is not too long: the MSS bounds it, or there is not
enough to send.  It reads the send side only. -/
def Short (t : Tcb) : Prop := ∀ pq, t.send.pq = some pq →
  t.send.state.mss.toNat ≤ maxText ∨ pq.size - t.appDataUnacknowleged pq ≤ maxText

/-- `Short` reads the send side. -/
theorem short_congr {t u : Tcb} (h : u.send = t.send) : u.Short ↔ t.Short := by
  simp only [Short, appDataUnacknowleged, h]

/-- Every packet that was emitted has true length fields. -/
def EmittedTrue (t : Tcb) : Prop := ∀ pkt ∈ t.mngr, pkt.TrueLengths

/-- `EmittedTrue` reads what was emitted. -/
theorem emittedTrue_congr {t u : Tcb} (h : u.mngr = t.mngr) : u.EmittedTrue ↔ t.EmittedTrue := by
  rw [EmittedTrue, EmittedTrue, h]

section Packet

variable {t : Tcb} {pq : CircularBuffer Byte}

/-- **When a segment of `make_packet` is measured right.**  The text is the
minimum of the MSS and of what is unsent, so either of the two may keep it
short. -/
theorem packetOut_trueLengths_iff (hpq : t.send.pq = some pq) :
    (t.packetOut pq).TrueLengths ↔ t.Short := by
  have hlen := t.packetOut_text_length pq
  have hopts : (t.packetOut pq).skb.opts.length = 0 := rfl
  rw [TcpPacket.trueLengths_iff, hlen, hopts, Short, hpq]
  simp only [Option.some.injEq, forall_eq', appDataToSendLeft, TcpHeader.fixedSize,
    Ipv4Header.fixedSize, maxText]
  omega

/-- One more packet. -/
theorem emittedTrue_afterPacket (hpq : t.send.pq = some pq) :
    (t.afterPacket pq).EmittedTrue ↔ t.EmittedTrue ∧ t.Short := by
  rw [EmittedTrue, afterPacket_mngr, List.forall_mem_append, List.forall_mem_singleton,
    packetOut_trueLengths_iff hpq]
  rfl

/-- A packet leaves less to send. -/
theorem Short.afterPacket (h : t.Short) (hpq : t.send.pq = some pq) (hsize : pq.size < 2 ^ 32) :
    (t.afterPacket pq).Short := by
  intro pq' hpq'
  rw [afterPacket_pq, hpq] at hpq'
  cases hpq'
  refine (h pq hpq).imp_right fun hle => ?_
  rcases le_or_gt t.ahead pq.size with hahead | hahead
  · have hmoved := ahead_afterPacket hahead hsize
    rw [appDataUnacknowleged, ← ahead] at hle ⊢
    omega
  · -- More is in flight than there is, so nothing is sent.
    have hnone : t.appDataToSendLeft pq = 0 := by
      rw [appDataToSendLeft, appDataUnacknowleged, ← ahead, Nat.min_eq_left hahead.le,
        Nat.sub_self, Nat.min_zero]
    have hsame : (t.afterPacket pq).appDataUnacknowleged pq = t.appDataUnacknowleged pq := by
      rw [appDataUnacknowleged, afterPacket_next, hnone, BitVec.add_zero]
      rfl
    rw [hsame]
    exact hle

/-- **The send loop**: its first segment is the longest, so that one condition
on the block before the loop decides for all of them. -/
theorem sendLoop_emittedTrue {t' : Tcb} (hpq : t.send.pq = some pq) (hsize : pq.size < 2 ^ 32)
    (h : t.sendLoop = .ok t') : t'.EmittedTrue ↔ t.EmittedTrue ∧ t.Short := by
  constructor
  · intro htrue
    by_cases hnone : t.appDataToSendLeft pq = 0
    · rw [sendLoop_eq hpq, sendLoopFuel_succ hpq, if_pos hnone] at h
      cases h
      refine ⟨htrue, fun pq' hpq' => ?_⟩
      rw [hpq] at hpq'
      cases hpq'
      rw [appDataToSendLeft] at hnone
      omega
    · -- What the first turn has emitted stays emitted.
      rw [sendLoop_eq hpq, sendLoopFuel_succ hpq, if_neg hnone] at h
      have hfront : (t.afterPacket pq).mngr <+: t'.mngr :=
        sendLoopFuel_preserves (P := fun u => (t.afterPacket pq).mngr <+: u.mngr)
          (fun u pq' hu _ => hu.trans (List.prefix_append _ _)) _ List.prefix_rfl h
      exact (emittedTrue_afterPacket hpq).mp fun pkt hpkt => htrue pkt (hfront.subset hpkt)
  · rintro ⟨htrue, hshort⟩
    have hkept := sendLoop_preserves
      (P := fun u => u.send.pq = some pq ∧ u.EmittedTrue ∧ u.Short) ?_ ⟨hpq, htrue, hshort⟩ h
    · exact hkept.2.1
    · rintro u pq' ⟨hu, hutrue, hushort⟩ hpq'
      obtain rfl : pq = pq' := Option.some.inj (hu.symm.trans hpq')
      exact ⟨hu, (emittedTrue_afterPacket hu).mpr ⟨hutrue, hushort⟩, hushort.afterPacket hu hsize⟩

end Packet

/-! ## Events

A segment of a block is made in the ACK step, in the FIN step, by the send
loop, or at the end of a read. -/

/-- The packet of the ACK step, if there is one: a block in TIME-WAIT
acknowledges, and a block that is acknowledged what it has not sent answers
from what is left of the queue. -/
def AckShort (t : Tcb) (seg : Segment) : Prop :=
  seg.tcph.ACK = true → (t.state = .timeWait → t.Short) ∧
    (t.state.acksData = true → seg.tcph.ackNo > t.send.state.seqNrNext →
      ∀ pq, t.send.pq = some pq → (t.ackData pq seg.tcph.ackNo).Short)

/-- The packet of the FIN step, if there is one. -/
def FinShort (t : Tcb) (seg : Segment) : Prop :=
  seg.tcph.FIN = true → ∀ t', t.ackStep seg = .ok (.next t') →
    t'.state = .synReceived ∨ t'.state = .established → t'.Short

/-- **Every segment that the event makes is short**, judged by the block it is
made from: after the ACK step of a segment, at the start of the send loop, and
at the end of a read's callback. -/
def SegmentsShort (t : Tcb) : Event → Prop
  | .process seg => t.reachesAckStep seg = true → t.AckShort seg ∧ t.FinShort seg
  | .call _ => True
  | .task k calls => ∀ task, t.ioCtx[k]? = some task →
      (task = .sendLoop → t.Short) ∧
      ∀ cb len, task = .readDone cb len →
        ∀ u, (t.enterTask k task).appCalls calls = .ok u → u.Short

section Step

variable {isn : BitVec 32} {t t' : Tcb} {seg : Segment}

/-- **The ACK step** emits a packet in the two cases that `AckShort` names. -/
theorem AckOutcome.emittedTrue {flow : Flow} (h : AckOutcome t seg flow) :
    flow.block.EmittedTrue ↔ t.EmittedTrue ∧ t.AckShort seg := by
  -- A step that emits nothing: the mailbox is what it was, and no case of `AckShort` applies.
  have hquiet {u : Tcb} (hmngr : u.mngr = t.mngr) (hno : seg.tcph.ACK = true →
      t.state ≠ .timeWait ∧ (t.state.acksData = true →
        ¬ seg.tcph.ackNo > t.send.state.seqNrNext)) :
      u.EmittedTrue ↔ t.EmittedTrue ∧ t.AckShort seg := by
    rw [emittedTrue_congr hmngr]
    exact (and_iff_left fun hACK => ⟨fun hstate => absurd hstate (hno hACK).1,
      fun hstate hhi => absurd hhi ((hno hACK).2 hstate)⟩).symm
  cases h with
  | absent hACK => exact hquiet rfl fun hACK' => by rw [hACK] at hACK'; cases hACK'
  | accepted hACK hstate hlo hhi =>
      exact hquiet rfl fun _ => by rw [hstate]; exact ⟨nofun, nofun⟩
  | refused hACK hstate hrange =>
      exact hquiet rfl fun _ => by rw [hstate]; exact ⟨nofun, nofun⟩
  | data hACK hstate pq hpq hhi =>
      obtain ⟨n, hn⟩ := (t.ackData pq seg.tcph.ackNo).ackNextState_eq
      refine hquiet (by rw [Flow.block, hn]; rfl) fun _ => ⟨fun hwait => ?_, fun _ => hhi⟩
      rw [hwait] at hstate
      cases hstate
  | unsent hACK hstate pq pq' hpq hhi hpq' =>
      refine (emittedTrue_afterPacket hpq').trans (and_congr Iff.rfl ⟨fun hshort _ => ⟨?_, ?_⟩, ?_⟩)
      · intro hwait
        rw [hwait] at hstate
        cases hstate
      · intro _ _ q hq
        obtain rfl : pq = q := Option.some.inj (hpq.symm.trans hq)
        exact hshort
      · exact fun hshort => (hshort hACK).2 hstate hhi pq hpq
  | lastAck hACK hstate => exact hquiet rfl fun _ => by rw [hstate]; exact ⟨nofun, nofun⟩
  | timeWait hACK hstate pq hpq =>
      refine (emittedTrue_afterPacket hpq).trans (and_congr Iff.rfl ⟨fun hshort _ => ⟨?_, ?_⟩, ?_⟩)
      · exact fun _ => hshort
      · intro hacks
        rw [hstate] at hacks
        cases hacks
      · exact fun hshort => (hshort hACK).1 hstate
  | unsynchronized hACK hstate =>
      refine hquiet rfl fun _ => ⟨fun hwait => ?_, fun hacks => ?_⟩
      · rw [hwait] at hstate
        cases hstate
      · rw [TcpState.synchronized_of_acksData hacks] at hstate
        cases hstate

/-- **The FIN step** emits its packet in the states in which it acknowledges at
once. -/
theorem FinOutcome.emittedTrue (h : FinOutcome t seg t') : t'.EmittedTrue ↔
    t.EmittedTrue ∧ (seg.tcph.FIN = true →
      t.state = .synReceived ∨ t.state = .established → t.Short) := by
  cases h with
  | ignored hno =>
      refine (and_iff_left fun hFIN hstate => ?_).symm
      rcases hno with hno | ⟨hsyn, htext⟩
      · rw [hno] at hFIN
        cases hFIN
      · rcases hstate with hstate | hstate
        · exact absurd hstate hsyn
        · rw [hstate] at htext
          cases htext
  | closed hFIN hstate pq hpq =>
      have hpacket := emittedTrue_afterPacket
        (t := (t.advanceRcvNext 1).setNextState .closeWait) hpq
      exact hpacket.trans (and_congr Iff.rfl
        ⟨fun hshort _ _ => (short_congr rfl).mp hshort,
          fun hshort => (short_congr rfl).mpr (hshort hFIN hstate)⟩)
  | finWait hFIN hstate =>
      refine (and_iff_left fun _ hopen => ?_).symm
      rcases hstate with hstate | hstate <;> rw [hstate] at hopen <;> exact absurd hopen (by simp)

/-- The packet of a block that has just got its queue carries no text. -/
theorem short_of_empty {pq : CircularBuffer Byte} (hpq : t.send.pq = some pq) (hempty : pq.size = 0) :
    t.Short := by
  intro pq' hpq'
  obtain rfl : pq = pq' := Option.some.inj (hpq.symm.trans hpq')
  exact .inr (by rw [hempty, Nat.zero_sub]; exact Nat.zero_le _)

/-- A segment: the packets of its ACK step and of its FIN step. -/
theorem process_emittedTrue (h : t.process isn seg = .ok t') :
    t'.EmittedTrue ↔ t.EmittedTrue ∧ t.SegmentsShort (.process seg) := by
  by_cases hreach : t.reachesAckStep seg = true
  · rw [process_of_synchronized (reachesAckStep_synchronized hreach), if_pos hreach] at h
    obtain ⟨flow, hflow, h⟩ := bind_eq_ok.mp h
    have hack := (ackStep_cases hflow).emittedTrue
    have hiff : t.SegmentsShort (.process seg) ↔ t.AckShort seg ∧ t.FinShort seg :=
      ⟨fun hshort => hshort hreach, fun hshort _ => hshort⟩
    rw [hiff]
    cases flow with
    | ret u =>
        cases h
        have hfin : t.FinShort seg := fun _ v hv => by rw [hflow] at hv; cases hv
        rw [and_iff_left hfin]
        exact hack
    | next u =>
        obtain ⟨v, hv, h⟩ := bind_eq_ok.mp h
        have htext := textStep_cases hv
        -- The text step sends nothing, so the FIN step packs what the ACK step left.
        have hfin : t.FinShort seg ↔ (seg.tcph.FIN = true →
            v.state = .synReceived ∨ v.state = .established → v.Short) := by
          rw [htext.state_eq, short_congr htext.send_eq]
          constructor
          · exact fun hshort hFIN => hshort hFIN u hflow
          · intro hshort hFIN u' hu'
            rw [hflow] at hu'
            cases hu'
            exact hshort hFIN
        rw [(finStep_cases h).emittedTrue, emittedTrue_congr htext.mngr_eq, hfin, ← and_assoc]
        exact and_congr_left fun _ => hack
  · rw [and_iff_left (show t.SegmentsShort (.process seg) from fun hno => absurd hno hreach)]
    cases process_cases h with
    | unchanged hno => exact Iff.rfl
    | passiveOpen hstate hRST hACK hSYN opts hopts =>
        exact (emittedTrue_afterPacket rfl).trans (and_iff_left (short_of_empty rfl rfl))
    | activeOpen hstate hSYN hACK hlo hhi opts hopts =>
        exact (emittedTrue_afterPacket (t := t.acceptSynAck seg opts) rfl).trans
          (and_iff_left (short_of_empty rfl rfl))
    | returned hsync hyes hack => exact absurd hyes hreach
    | continued hsync hyes hack htext hfin => exact absurd hyes hreach

/-- **One event.**  What has been emitted stays true, and what the event makes
is true if it is short.  Both directions, so the result on runs is exact. -/
theorem step_emittedTrue {e : Event} (hsized : PeerSized t) (h : step isn t e = .ok t') :
    t'.EmittedTrue ↔ t.EmittedTrue ∧ t.SegmentsShort e := by
  cases e with
  | process seg => exact process_emittedTrue h
  | call c =>
      rw [and_iff_left (show t.SegmentsShort (.call c) from trivial)]
      cases appCall_cases h <;> exact Iff.rfl
  | task k calls =>
      cases hk : t.ioCtx[k]? with
      | none =>
          rw [step_task_none calls hk] at h
          cases h
          refine (and_iff_left fun task htask => ?_).symm
          rw [hk] at htask
          cases htask
      | some task =>
          rw [step_task_some calls hk] at h
          have hiff : t.SegmentsShort (.task k calls) ↔ (task = .sendLoop → t.Short) ∧
              ∀ cb len, task = .readDone cb len →
                ∀ u, (t.enterTask k task).appCalls calls = .ok u → u.Short := by
            constructor
            · exact fun hshort => hshort task hk
            · intro hshort task' htask'
              obtain rfl : task = task' := Option.some.inj (hk.symm.trans htask')
              exact hshort
          rw [hiff]
          cases task with
          | connectionEstablished =>
              rw [emittedTrue_congr ((appCalls_mngr h).trans (enterTask_mngr _ _ _))]
              exact (and_iff_left (by simp)).symm
          | writeDone cb len =>
              rw [emittedTrue_congr ((appCalls_mngr h).trans (enterTask_mngr _ _ _))]
              exact (and_iff_left (by simp)).symm
          | readDone cb len =>
              -- The acknowledgement is made behind the calls, from the queue they leave.
              obtain ⟨u, hu, hsend⟩ := bind_eq_ok.mp h
              obtain ⟨pq, hpq, rfl⟩ := makeAndSendPkt_ok.mp hsend
              rw [emittedTrue_afterPacket hpq,
                emittedTrue_congr ((appCalls_mngr hu).trans (enterTask_mngr _ _ _))]
              refine and_congr Iff.rfl ⟨fun hshort => ⟨by simp, fun cb' len' htask v hv => ?_⟩,
                fun hshort => hshort.2 cb len rfl u hu⟩
              obtain rfl : u = v := Except.ok.inj (hu.symm.trans hv)
              exact hshort
          | sendLoop =>
              obtain ⟨pq, hpq, -⟩ := bind_eq_ok.mp h
              rw [sendPq_ok] at hpq
              -- The queue has the size of a 16-bit window, so the loop comes to an end.
              have hcapacity := hsized pq.capacity (by
                rw [queueCapacity, ← enterTask_send t k .sendLoop, hpq]; rfl)
              have hsize : pq.size < 2 ^ 32 := lt_of_le_of_lt pq.size_le (by omega)
              rw [sendLoop_emittedTrue hpq hsize h, emittedTrue_congr (enterTask_mngr _ _ _),
                short_congr (enterTask_send _ _ _)]
              exact and_congr Iff.rfl ⟨fun hshort => ⟨fun _ => hshort, by simp⟩,
                fun hshort => hshort.1 rfl⟩

end Step

/-- A new block has emitted nothing, or its SYN. -/
theorem Opened.emittedTrue {isn : BitVec 32} {t : Tcb} (h : Opened isn t) : t.EmittedTrue := by
  cases h with
  | passive remoteEp localEp junkSend junkRcv => exact List.forall_mem_nil _
  | active remoteEp localEp junkSend junkRcv h =>
      rw [startConnecting_eq] at h
      cases h
      refine List.forall_mem_singleton.mpr ((TcpPacket.trueLengths_iff _).mpr ?_)
      show 8 + 0 + TcpHeader.fixedSize + Ipv4Header.fixedSize < 2 ^ 16
      decide

/-- **When no length field wraps.**  For every run of a block, whatever window
and MSS the peer announces, whatever is written and acknowledged, and in
whatever order the handlers run: all emitted segments have a true segment
length in the pseudo header, a true total length in the IPv4 header and a true
`seglen` at the receiver, if and only if each of them is made where the MSS or
the unsent part of the queue is at most 65495 bytes. -/
theorem length_fields_iff {isn : BitVec 32} {t₀ t : Tcb} {es : List Event} (hopen : Opened isn t₀)
    (hrun : run isn t₀ es = .ok t) :
    (∀ pkt ∈ t.mngr, pkt.TrueLengths) ↔ Admitted (step isn) SegmentsShort t₀ es := by
  have hadm : Admitted (step isn) (fun _ _ => True) t₀ es :=
    admitted_of_forall (fun _ _ => trivial) t₀ es
  have hall := run_accumulates_iff (J := PeerSized) (P := EmittedTrue)
    (fun u e u' hu _ hstep => step_peerSized hu hstep)
    (fun u e u' hu _ hstep => step_emittedTrue hu hstep) hopen.peerSized hadm hrun
  exact hall.trans (and_iff_right hopen.emittedTrue)

/-- A peer that announces the largest window and the largest MSS; the
application writes `buf` when it is connected, and the send loop runs. -/
def largePeer (buf : List Byte) : List Event :=
  [.process ⟨{ TcpHeader.bare with SYN := true, seqNo := 100, window := 0xFFFF },
      [kMSS, 4, 0xFF, 0xFF], []⟩,
    .process ⟨{ TcpHeader.bare with ACK := true, seqNo := 101, ackNo := 8 }, [], []⟩,
    .task 0 [.write buf 1], .task 0 []]

/-- Three bytes. -/
theorem three_bytes_measured : ∃ t, run 7 listening (largePeer [1, 2, 3]) = .ok t ∧
    t.mngr.map (·.skb.text) = [[], [1, 2, 3]] ∧
    Admitted (step 7) SegmentsShort listening (largePeer [1, 2, 3]) := by
  obtain ⟨t, hrun⟩ : ∃ t, run 7 listening (largePeer [1, 2, 3]) = .ok t := ⟨_, rfl⟩
  refine ⟨t, hrun, by cases hrun; rfl, (length_fields_iff (opened_listening 7) hrun).mp ?_⟩
  have hshort : ∀ pkt ∈ t.mngr, pkt.skb.opts.length + pkt.skb.text.length +
      TcpHeader.fixedSize + Ipv4Header.fixedSize < 2 ^ 16 := by
    cases hrun
    decide
  exact fun pkt hpkt => pkt.trueLengths_iff.mpr (hshort pkt hpkt)

/-- 65496 bytes fit the queue and make one segment; with its headers it has
`2 ^ 16` bytes. -/
theorem large_segment_mismeasured : Opened 7 listening ∧
    ∃ t, run 7 listening (largePeer (List.replicate 65496 0)) = .ok t ∧
      ¬ ∀ pkt ∈ t.mngr, pkt.TrueLengths := by
  refine ⟨opened_listening 7, ?_⟩
  obtain ⟨buf, hbuf⟩ : ∃ buf : List Byte, buf = List.replicate 65496 0 := ⟨_, rfl⟩
  have hlen : buf.length = 65496 := by rw [hbuf, List.length_replicate]
  rw [← hbuf]
  -- The handshake.
  obtain ⟨t, ht⟩ : ∃ t, run 7 listening ((largePeer buf).take 2) = .ok t := ⟨_, rfl⟩
  have hioCtx : t.ioCtx = [.connectionEstablished] := by cases ht; rfl
  have hsend : t.send = ⟨⟨8, 8, 0xFFFF, 0xFFFF⟩, some (CircularBuffer.ofCapacity 65535)⟩ := by
    cases ht; rfl
  -- The write.
  obtain ⟨u, hu⟩ : ∃ u, u = t.enterTask 0 .connectionEstablished := ⟨_, rfl⟩
  obtain ⟨v, hv⟩ : ∃ v, v = u.afterWrite (CircularBuffer.ofCapacity 65535) buf 1 := ⟨_, rfl⟩
  have husend : u.send = t.send := by rw [hu, enterTask_send]
  have hwrite : u.appCall (.write buf 1) = .ok v :=
    asyncWrite_ok.mpr ⟨_, by rw [husend, hsend], by rw [hlen]; decide, hv⟩
  have hwritten : step 7 t (.task 0 [.write buf 1]) = .ok v := by
    rw [step_task_some _ (show t.ioCtx[0]? = some .connectionEstablished by rw [hioCtx]; rfl), ← hu]
    show u.appCalls [.write buf 1] = .ok v
    rw [appCalls, run_cons, hwrite]
    rfl
  -- The send loop.
  have hvioCtx : v.ioCtx[0]? = some .sendLoop := by
    rw [hv, hu]
    show ((t.enterTask 0 .connectionEstablished).ioCtx ++ [.sendLoop] ++ _)[0]? = _
    rw [enterTask_ioCtx, hioCtx]
    rfl
  obtain ⟨w, hw⟩ : ∃ w, w = v.enterTask 0 .sendLoop := ⟨_, rfl⟩
  obtain ⟨pq, hpq⟩ : ∃ pq, pq = (CircularBuffer.ofCapacity 65535).insertEnd buf := ⟨_, rfl⟩
  have hwsend : w.send = ⟨⟨8, 8, 0xFFFF, 0xFFFF⟩, some pq⟩ := by
    rw [hw, enterTask_send, hv, afterWrite, husend, hsend, hpq]
  have hwpq : w.send.pq = some pq := by rw [hwsend]
  have hsize : pq.size = 65496 := by
    rw [hpq, CircularBuffer.size_eq, CircularBuffer.insertEnd_data _ (by rw [hlen]; decide),
      List.length_append, hlen]
    rfl
  obtain ⟨x, hx⟩ := sendLoop_total hwpq
  have hsent : step 7 v (.task 0 []) = .ok x := by
    rw [step_task_some _ hvioCtx, ← hw]
    exact hx
  refine ⟨x, ?_, fun htrue => ?_⟩
  · show EventSystem.run _ listening ((largePeer buf).take 2 ++ [.task 0 [.write buf 1], .task 0 []])
      = .ok x
    rw [run_append, show EventSystem.run _ _ _ = .ok t from ht, ok_bind, run_cons, hwritten,
      ok_bind, run_cons, hsent]
    rfl
  · have hshort := ((sendLoop_emittedTrue hwpq (by omega) hx).mp htrue).2 pq hwpq
    rw [appDataUnacknowleged, hwsend, hsize] at hshort
    exact absurd hshort (show ¬ ((0xFFFF : BitVec 16).toNat ≤ maxText ∨
      65496 - min 65496 ((8 : BitVec 32) - 8).toNat ≤ maxText) by decide)

end Tcb

end Mstack
