import Mathlib.Algebra.Order.Floor.Div
import Mstack.Tcp.SendQueue
import Mstack.Tcp.SendStream

/-!
# The send loop

The handler that `enqueue_app_data` posts is `while (has_app_data_to_send())
make_and_send_pkt();`. Nothing in it counts: what is left is a `min` of the
queue size and the difference of two wrapping counters, recomputed in each
turn, and a turn moves one of the counters.

`Cuts mss seqNo bytes pkts` describes what it emits: `pkts` are `bytes` cut
into pieces of `mss` bytes, the last one shorter, numbered from `seqNo` on.
What a reader wants to know of such a list is proved of `Cuts` alone, with no
block in sight: its texts are the bytes, no segment is empty, the numbers are
consecutive, and there are as many as the bytes divided by the MSS, rounded up.

### Main result

`sendLoop_cuts`: the loop ends, and its segments are the unsent bytes cut in
this way, wherever in the circle the counters stand.

### What is load-bearing

The difference SND.NXT − SND.UNA is taken in 32 bits and does not wrap, because
it **stays within the queue**: a turn adds at most what the queue has left
(`ahead_afterPacket`), and the queue is smaller than `2 ^ 32`.  The numbers of
the segments do wrap.

An MSS of zero is excluded.  Then `has_app_data_to_send` is false at once, and
nothing is sent at all.
-/

namespace Mstack

namespace Tcb

open EventSystem (Admitted)

/-! ## Bytes cut into segments

Lists of packets, without a block. -/

/-- `pkts` are `bytes` cut into pieces of `mss` bytes, under the numbers from
`seqNo` on. -/
inductive Cuts (mss : ℕ) : BitVec 32 → List Byte → List TcpPacket → Prop where
  | done (seqNo : BitVec 32) : Cuts mss seqNo [] []
  | cut {seqNo : BitVec 32} {bytes : List Byte} {pkt : TcpPacket} {pkts : List TcpPacket} :
      bytes ≠ [] → pkt.skb.text = bytes.take mss → pkt.skb.tcph.PSH = true →
      pkt.skb.tcph.seqNo = seqNo →
      Cuts mss (seqNo + BitVec.ofNat 32 pkt.skb.text.length) (bytes.drop mss) pkts →
      Cuts mss seqNo bytes (pkt :: pkts)

section Cuts

variable {mss : ℕ} {seqNo : BitVec 32} {bytes : List Byte} {pkts : List TcpPacket}

/-- Nothing is lost and nothing is sent twice. -/
theorem Cuts.payload_eq (h : Cuts mss seqNo bytes pkts) : payload pkts = bytes := by
  induction h with
  | done seqNo => rfl
  | @cut seqNo bytes pkt pkts hne htext hPSH hseqNo hrest ih =>
      rw [← List.singleton_append, payload_append, payload_singleton, ih, htext,
        List.take_append_drop]

/-- No segment is empty and none is longer than the MSS. -/
theorem Cuts.sized (h : Cuts mss seqNo bytes pkts) (hmss : 0 < mss) :
    ∀ pkt ∈ pkts, 1 ≤ pkt.skb.text.length ∧ pkt.skb.text.length ≤ mss ∧
      pkt.skb.tcph.PSH = true := by
  induction h with
  | done seqNo => simp
  | @cut seqNo bytes pkt pkts hne htext hPSH hseqNo hrest ih =>
      intro q hq
      rcases List.mem_cons.mp hq with rfl | hq
      · have hpos := List.length_pos_of_ne_nil hne
        rw [htext, List.length_take]
        exact ⟨by omega, by omega, hPSH⟩
      · exact ih q hq

/-- The numbers are consecutive. -/
theorem Cuts.numbered (h : Cuts mss seqNo bytes pkts) :
    ∀ pre pkt post, pkts = pre ++ pkt :: post →
      pkt.skb.tcph.seqNo = seqNo + BitVec.ofNat 32 (payload pre).length := by
  induction h with
  | done seqNo => simp
  | @cut seqNo bytes pkt pkts hne htext hPSH hseqNo hrest ih =>
      intro pre q post heq
      cases pre with
      | nil =>
          cases heq
          simpa using hseqNo
      | cons first pre =>
          obtain ⟨rfl, hpkts⟩ := List.cons.inj heq
          rw [ih pre q post hpkts, SerialNumber.add_ofNat_add, ← List.singleton_append,
            payload_append, payload_singleton, List.length_append]

/-- One more segment for each `mss` bytes begun. -/
theorem ceilDiv_eq_succ {n m : ℕ} (hn : 0 < n) (hm : 0 < m) : n ⌈/⌉ m = (n - m) ⌈/⌉ m + 1 := by
  rw [Nat.ceilDiv_eq_add_pred_div, Nat.ceilDiv_eq_add_pred_div]
  rcases le_total m n with hle | hle
  · rw [← Nat.add_div_right _ hm]
    congr 1
    omega
  · rw [Nat.sub_eq_zero_of_le hle, Nat.div_eq_of_lt_le (k := 1) (by omega) (by omega),
      Nat.div_eq_of_lt (by omega)]

theorem Cuts.length_eq (h : Cuts mss seqNo bytes pkts) (hmss : 0 < mss) :
    pkts.length = bytes.length ⌈/⌉ mss := by
  induction h with
  | done seqNo => simp
  | @cut seqNo bytes pkt pkts hne htext hPSH hseqNo hrest ih =>
      rw [List.length_cons, ih, List.length_drop,
        ceilDiv_eq_succ (List.length_pos_of_ne_nil hne) hmss]

end Cuts

/-! ## The loop

The measure is what is queued and not yet in flight. -/

/-- What SND.NXT is ahead of SND.UNA, in 32 bits. -/
def ahead (t : Tcb) : ℕ := (t.send.state.seqNrNext - t.send.state.seqNrUnack).toNat

section Loop

variable {t : Tcb} {pq : CircularBuffer Byte}

/-- Where what is in flight is part of the queue, a turn sends at most the MSS
of the rest. -/
theorem appDataToSendLeft_of_ahead_le (hahead : t.ahead ≤ pq.size) :
    t.appDataToSendLeft pq = min t.send.state.mss.toNat (pq.size - t.ahead) := by
  rw [appDataToSendLeft, appDataUnacknowleged, ← ahead, Nat.min_eq_right hahead]

/-- … from the first unsent byte on. -/
theorem packetOut_text_of_ahead_le (hahead : t.ahead ≤ pq.size) :
    (t.packetOut pq).skb.text = (pq.data.drop t.ahead).take t.send.state.mss.toNat := by
  rw [packetOut_text, appDataToSendLeft_of_ahead_le hahead, appDataUnacknowleged, ← ahead,
    Nat.min_eq_right hahead, CircularBuffer.size_eq, ← List.length_drop, ← List.take_take,
    List.take_length]

/-- Dropping more than there is drops everything. -/
theorem drop_add_min (bytes : List Byte) (n m : ℕ) :
    bytes.drop (n + min m (bytes.length - n)) = (bytes.drop n).drop m := by
  rw [← List.drop_drop, ← List.length_drop]
  rcases le_total m (bytes.drop n).length with hle | hle
  · rw [Nat.min_eq_left hle]
  · rw [Nat.min_eq_right hle, List.drop_length, List.drop_eq_nil_of_le hle]

/-- A turn moves SND.NXT by what it sends, and the difference does not wrap: it
stays within the queue. -/
theorem ahead_afterPacket (hahead : t.ahead ≤ pq.size) (hsize : pq.size < 2 ^ 32) :
    (t.afterPacket pq).ahead = t.ahead + t.appDataToSendLeft pq := by
  have hleft := appDataToSendLeft_of_ahead_le hahead
  have hmove : t.send.state.seqNrNext + BitVec.ofNat 32 (t.appDataToSendLeft pq) -
      t.send.state.seqNrUnack = (t.send.state.seqNrNext - t.send.state.seqNrUnack) +
        BitVec.ofNat 32 (t.appDataToSendLeft pq) := BitVec.sub_add_comm.symm
  rw [ahead, afterPacket_next, afterPacket_unack, hmove, BitVec.toNat_add, BitVec.toNat_ofNat,
    ← ahead, Nat.add_mod_mod, Nat.mod_eq_of_lt (by omega)]

/-- **The loop, by its turns.**  The number of bytes left is the measure; each
turn with bytes left emits one piece of them. -/
theorem sendLoopFuel_cuts (hsize : pq.size < 2 ^ 32) :
    ∀ (left : ℕ) {t : Tcb}, t.send.pq = some pq → 0 < t.send.state.mss.toNat →
      t.ahead ≤ pq.size → pq.size - t.ahead = left →
      ∃ t' pkts, (∀ fuel, pkts.length < fuel → sendLoopFuel fuel t = .ok t') ∧
        t'.mngr = t.mngr ++ pkts ∧ t'.send.pq = some pq ∧
        t'.send.state.seqNrUnack = t.send.state.seqNrUnack ∧ t'.ahead = pq.size ∧
        Cuts t.send.state.mss.toNat t.send.state.seqNrNext (pq.data.drop t.ahead) pkts := by
  intro left
  induction left using Nat.strong_induction_on with
  | _ left ih =>
      intro t hpq hmss hahead hleft
      have hsend := appDataToSendLeft_of_ahead_le hahead
      rcases Nat.eq_zero_or_pos left with rfl | hpos
      · refine ⟨t, [], fun fuel hfuel => ?_, (List.append_nil _).symm, hpq, rfl, by omega, ?_⟩
        · obtain ⟨fuel, rfl⟩ := Nat.exists_eq_succ_of_ne_zero (Nat.ne_of_gt hfuel)
          rw [sendLoopFuel_succ hpq, if_pos (by omega)]
        · rw [List.drop_eq_nil_of_le (by rw [← CircularBuffer.size_eq]; omega)]
          exact .done _
      · -- One turn, and the induction hypothesis for the block it leaves.
        have hmoved := ahead_afterPacket hahead hsize
        obtain ⟨t', pkts, hloop, hmngr, hpq', hunack, hall, hcuts⟩ :=
          ih (pq.size - (t.afterPacket pq).ahead) (by omega) (t := t.afterPacket pq) hpq hmss
            (by omega) rfl
        refine ⟨t', t.packetOut pq :: pkts, fun fuel hfuel => ?_, ?_, hpq', hunack, hall, ?_⟩
        · rw [List.length_cons] at hfuel
          obtain ⟨fuel, rfl⟩ := Nat.exists_eq_succ_of_ne_zero (n := fuel) (by omega)
          rw [sendLoopFuel_succ hpq, if_neg (by omega)]
          exact hloop fuel (by omega)
        · rw [hmngr, afterPacket_mngr, List.append_assoc, List.singleton_append]
        · have hlength := t.packetOut_text_length pq
          refine .cut ?_ (packetOut_text_of_ahead_le hahead) ?_ ?_ ?_
          · rw [← List.length_pos_iff, List.length_drop, ← CircularBuffer.size_eq]
            omega
          · show decide (0 < t.appDataToSendLeft pq) = true
            exact decide_eq_true (by omega)
          · rw [packetOut_seqNo, if_neg (by omega)]
          · rw [hmoved, hsend, CircularBuffer.size_eq, drop_add_min] at hcuts
            rw [hlength, ← afterPacket_next]
            exact hcuts

/-- No more segments than bytes. -/
theorem Cuts.length_le {mss : ℕ} {seqNo : BitVec 32} {bytes : List Byte} {pkts : List TcpPacket}
    (h : Cuts mss seqNo bytes pkts) (hmss : 0 < mss) : pkts.length ≤ bytes.length := by
  rw [h.length_eq hmss, ceilDiv_le_iff_le_mul hmss]
  exact Nat.le_mul_of_pos_left _ hmss

/-- The queue of every block of a run is smaller than `2 ^ 32`: the peer
announces its size in 16 bits. -/
theorem run_queue_lt {isn : BitVec 32} {t₀ : Tcb} {es : List Event} (hopen : Opened isn t₀)
    (hrun : run isn t₀ es = .ok t) (hpq : t.send.pq = some pq) : pq.capacity < 2 ^ 32 := by
  have hadm : Admitted (step isn) (fun _ _ => True) t₀ es :=
    EventSystem.admitted_of_forall (fun _ _ => trivial) t₀ es
  have hsized : PeerSized t := EventSystem.run_invariant
    (fun u e u' hu _ hstep => step_peerSized hu hstep) hopen.peerSized hadm hrun
  have hcapacity := hsized pq.capacity (by rw [queueCapacity, hpq]; rfl)
  omega

/-- **The send loop.**  For every block with a queue and an MSS, however the
counters stand, and with what is in flight part of the queue: the loop ends,
after one segment for each MSS begun of the unsent bytes.  No segment is empty
or longer than the MSS, each has PSH, their numbers run on from SND.NXT, and
their texts are the unsent bytes.  The queue and SND.UNA stay, all of the queue
is in flight, and a second loop does nothing.  (The size of the queue is that
of a 16-bit window in every block of a run.) -/
theorem sendLoop_cuts :
    (∀ {isn : BitVec 32} {t₀ t : Tcb} {es : List Event} {pq : CircularBuffer Byte},
      Opened isn t₀ → run isn t₀ es = .ok t → t.send.pq = some pq → pq.capacity < 2 ^ 32) ∧
    ∀ {t : Tcb} {pq : CircularBuffer Byte}, t.send.pq = some pq → pq.capacity < 2 ^ 32 →
      0 < t.send.state.mss.toNat → t.ahead ≤ pq.size →
      ∃ t' pkts, t.sendLoop = .ok t' ∧
        (∀ fuel, pkts.length < fuel → sendLoopFuel fuel t = .ok t') ∧
        t'.hasAppDataToSend = .ok false ∧ t'.mngr = t.mngr ++ pkts ∧
        pkts.length = (pq.size - t.ahead) ⌈/⌉ t.send.state.mss.toNat ∧
        (∀ pkt ∈ pkts, 1 ≤ pkt.skb.text.length ∧
          pkt.skb.text.length ≤ t.send.state.mss.toNat ∧ pkt.skb.tcph.PSH = true) ∧
        (∀ pre pkt post, pkts = pre ++ pkt :: post → pkt.skb.tcph.seqNo =
          t.send.state.seqNrNext + BitVec.ofNat 32 (payload pre).length) ∧
        payload pkts = pq.data.drop t.ahead ∧ t'.send.pq = some pq ∧
        t'.send.state.seqNrUnack = t.send.state.seqNrUnack ∧ t'.ahead = pq.size ∧
        t'.sendLoop = .ok t' := by
  refine ⟨run_queue_lt, fun {t pq} hpq hcapacity hmss hahead => ?_⟩
  have hsize : pq.size < 2 ^ 32 := lt_of_le_of_lt pq.size_le hcapacity
  obtain ⟨t', pkts, hloop, hmngr, hpq', hunack, hall, hcuts⟩ :=
    sendLoopFuel_cuts hsize (pq.size - t.ahead) hpq hmss hahead rfl
  have hlength := hcuts.length_eq hmss
  have hle := hcuts.length_le hmss
  rw [List.length_drop, ← CircularBuffer.size_eq] at hlength hle
  have hnone : t'.appDataToSendLeft pq = 0 := by
    rw [appDataToSendLeft_of_ahead_le hall.le, hall, Nat.sub_self, Nat.min_zero]
  refine ⟨t', pkts, ?_, hloop, ?_, hmngr, hlength, hcuts.sized hmss, hcuts.numbered,
    hcuts.payload_eq, hpq', hunack, hall, ?_⟩
  · rw [sendLoop_eq hpq]
    exact hloop _ (by omega)
  · simp [hasAppDataToSend, sendPq_ok.mpr hpq', hnone, pure, Except.pure]
  · rw [sendLoop_eq hpq', sendLoopFuel_succ hpq', if_pos hnone]

end Loop

/-- Three bytes are unsent and the MSS is two; the first is the last below
`2 ^ 32`. -/
def wrapping : Tcb where
  ioCtx := [.sendLoop]
  mngr := []
  remoteEp := ⟨⟨0x0a000001⟩, 9⟩
  localEp := ⟨⟨0x0a000002⟩, 7⟩
  state := .established
  nextState := .established
  onDataReceive := []
  send :=
    { state := { seqNrUnack := 0xFFFFFFFE, seqNrNext := 0xFFFFFFFF, window := 4, mss := 2 }
      pq := some ⟨4, [1, 2, 3, 4], by decide⟩ }
  rcv := { state := default, pq := .ofCapacity rcvWindow.toNat }
  trace := {}

/-- A block has its queue from the peer's SYN on; two segments leave
`wrapping`, the second with the number 1. -/
theorem wrapping_cuts :
    (∀ t pq, run 7 listening [.process ⟨{ TcpHeader.bare with SYN := true, window := 4 }, [], []⟩]
      = .ok t → t.send.pq = some pq → pq.capacity < 2 ^ 32) ∧
    ∃ t' pkts, wrapping.sendLoop = .ok t' ∧ pkts.length = 2 ∧ payload pkts = [2, 3, 4] ∧
      t'.mngr = pkts := by
  constructor
  · exact fun t pq hrun hpq => sendLoop_cuts.1 (opened_listening 7) hrun hpq
  · have hpq : wrapping.send.pq = some ⟨4, [1, 2, 3, 4], by decide⟩ := rfl
    obtain ⟨t', pkts, hloop, -, -, hmngr, hlength, -, -, hpayload, -⟩ :=
      sendLoop_cuts.2 hpq (by decide) (by decide) (by decide)
    exact ⟨t', pkts, hloop, hlength, hpayload, hmngr⟩

end Tcb

end Mstack
