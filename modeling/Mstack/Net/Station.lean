import Mstack.Net.Pipeline
import Mstack.Tcp.Mss
import Mstack.Tcp.Outbox

/-!
# One host on a wire

A block, the layers under it, and the frames its device has written: what one
end of a connection is in the program.  The block hands its packets to
`tcb_manager` as it emits them; from there each of them travels through four
queues, gets its headers, and becomes a frame.  The other end reads the frames
in the order in which they were written.

For the block all of this is one channel.  `Carries` says which: the packets
the block has emitted and whose frames have not been read are a list, oldest
first, wherever on their way they are.  Each of the three things that can
happen keeps it:

* `Carries.event` — an event at the block, which may emit packets;
* `Carries.handler` — a handler of the layers, which moves one packet on;
* `Carries.frame` — the reading of a frame, which takes the oldest packet out
  of the channel.

### How a frame is a packet

`Net.Pipeline` says that the frames are the emitted segments, wrapped, in
order.  `encapsulate_of_wrapped` says that wrapping a segment is `encapsulate`,
and `Portable.decapsulate` that the other end gets the packet back from it,
with the two endpoints exchanged.  What `Carries` adds is the bookkeeping:
which prefix has been read.

### What is load-bearing

* **Size.**  `device::async_receive` reads at most 1500 bytes.  A packet with
  more than 1446 bytes of options and text has a longer frame and would be cut,
  so `Portable` bounds it, and the send MSS has to.  A block that gets its MSS
  from a peer like itself gets 1446 (`OffersMss`); a block that opens actively
  gets none from a peer like itself, keeps what the constructor left there, and
  a hypothesis is needed (`Net.Wire`).
* **Reachability.**  The pipeline never waits for an address.  What a host does
  until it knows one is the subject of `Net.Resolve`.
* **Memory.**  Nothing intercepts the flow, so no buffer is given back on the
  way up, and what freed memory holds cannot matter.
-/

namespace Mstack

open BigEndian EventSystem

/-! ## What a packet must be to get through

Everything that `tcb_t` emits is like this, as long as its MSS is small enough. -/

/-- **A packet that gets through**: its header says what the packet says, its
endpoints are those of the connection, and its frame fits the 1500 bytes the
receiver reads. -/
structure Portable (peer own : Endpoint) (pkt : TcpPacket) : Prop
    extends pkt.WellFormed where
  remoteEp : pkt.remoteEp = peer
  localEp : pkt.localEp = own
  fits : pkt.skb.opts.length + pkt.skb.text.length ≤ 1446

namespace Tcb

/-- **All packets of the block get through.**  A block in LISTEN has not been
given an MSS; before it has one it sends nothing with text.  The bound on the
MSS leaves room for the headers in the 1500 bytes that the receiver reads. -/
structure Emits (peer own : Endpoint) (t : Tcb) : Prop where
  remoteEp : t.remoteEp = peer
  localEp : t.localEp = own
  mss : t.send.state.mss.toNat ≤ 1446 ∨ (t.state = .listen ∧ t.send.pq = none)
  packets : ∀ pkt ∈ t.mngr, Portable peer own pkt

section Emits

variable {peer own : Endpoint} {t : Tcb}

/-- A block with a send queue has been given its MSS. -/
theorem Emits.mss_of_pq {pq : CircularBuffer Byte} (h : Emits peer own t)
    (hpq : t.send.pq = some pq) : t.send.state.mss.toNat ≤ 1446 := by
  rcases h.mss with hmss | ⟨-, hnone⟩
  · exact hmss
  · rw [hpq] at hnone
    cases hnone

/-- So has a block that does not listen. -/
theorem Emits.mss_of_state (h : Emits peer own t) (hstate : t.state ≠ .listen) :
    t.send.state.mss.toNat ≤ 1446 := by
  rcases h.mss with hmss | ⟨hlisten, -⟩
  · exact hmss
  · exact (hstate hlisten).elim

/-- What a step leaves alone that neither sends nor touches MSS and endpoints. -/
theorem Emits.congr {u : Tcb} (h : Emits peer own t) (hmss : t.send.state.mss.toNat ≤ 1446)
    (hremote : u.remoteEp = t.remoteEp) (hlocal : u.localEp = t.localEp)
    (hsame : u.send.state.mss = t.send.state.mss) (hmngr : u.mngr = t.mngr) :
    Emits peer own u :=
  ⟨hremote.trans h.remoteEp, hlocal.trans h.localEp, .inl (hsame ▸ hmss), hmngr ▸ h.packets⟩

/-- The packets of a block may be any that get through. -/
theorem Emits.setMngr (h : Emits peer own t) {m : List TcpPacket}
    (hm : ∀ pkt ∈ m, Portable peer own pkt) :
    Emits peer own { t with mngr := m } :=
  ⟨h.remoteEp, h.localEp, h.mss, hm⟩

/-- What `make_packet` makes gets through. -/
theorem portable_packetOut (hremote : t.remoteEp = peer) (hlocal : t.localEp = own)
    (hmss : t.send.state.mss.toNat ≤ 1446) (pq : CircularBuffer Byte) :
    Portable peer own (t.packetOut pq) := by
  refine ⟨⟨rfl, rfl, rfl, rfl, rfl⟩, hremote, hlocal, ?_⟩
  rw [packetOut_text_length]
  exact (Nat.zero_add _).trans_le ((Nat.min_le_left _ _).trans hmss)

/-- So does the SYN of `start_connecting`, with its options. -/
theorem portable_synOut (hremote : t.remoteEp = peer) (hlocal : t.localEp = own)
    (isn : BitVec 32) : Portable peer own (t.synOut isn) :=
  ⟨⟨rfl, rfl, rfl, rfl, rfl⟩, hremote, hlocal, show 8 + 0 ≤ 1446 by decide⟩

/-- **Sending a packet.** -/
theorem Emits.afterPacket (h : Emits peer own t) (hmss : t.send.state.mss.toNat ≤ 1446)
    (pq : CircularBuffer Byte) : Emits peer own (t.afterPacket pq) := by
  refine ⟨h.remoteEp, h.localEp, .inl hmss, fun pkt hpkt => ?_⟩
  rcases List.mem_append.mp hpkt with hold | hnew
  · exact h.packets pkt hold
  · rw [List.mem_singleton.mp hnew]
    exact portable_packetOut h.remoteEp h.localEp hmss pq

/-- The ACK step sends what gets through, and leaves the MSS alone. -/
theorem AckOutcome.emits {seg : Segment} {flow : Flow} (hack : AckOutcome t seg flow)
    (h : Emits peer own t) (hmss : t.send.state.mss.toNat ≤ 1446) :
    Emits peer own flow.block ∧ flow.block.send.state.mss.toNat ≤ 1446 := by
  cases hack with
  | absent _ => exact ⟨h, hmss⟩
  | accepted _ _ _ _ => exact ⟨h.congr hmss rfl rfl rfl rfl, hmss⟩
  | refused _ _ _ => exact ⟨h, hmss⟩
  | data _ _ pq _ _ =>
      obtain ⟨n, hn⟩ := (t.ackData pq seg.tcph.ackNo).ackNextState_eq
      rw [hn]
      exact ⟨h.congr hmss rfl rfl rfl rfl, hmss⟩
  | unsent _ _ pq pq' _ _ _ =>
      have hdata : Emits peer own (t.ackData pq seg.tcph.ackNo) :=
        h.congr hmss rfl rfl rfl rfl
      exact ⟨hdata.afterPacket hmss pq', hmss⟩
  | lastAck _ _ => exact ⟨h.congr hmss rfl rfl rfl rfl, hmss⟩
  | timeWait _ _ pq _ => exact ⟨h.afterPacket hmss pq, hmss⟩
  | unsynchronized _ _ => exact ⟨h, hmss⟩

/-- The text step sends nothing. -/
theorem TextOutcome.emits {seg : Segment} {t' : Tcb} (htext : TextOutcome t seg t')
    (h : Emits peer own t) (hmss : t.send.state.mss.toNat ≤ 1446) :
    Emits peer own t' ∧ t'.send.state.mss.toNat ≤ 1446 := by
  cases htext with
  | ignored _ => exact ⟨h, hmss⟩
  | delivered _ _ _ _ _ => exact ⟨h.congr hmss rfl rfl rfl rfl, hmss⟩
  | appended _ _ _ => exact ⟨h.congr hmss rfl rfl rfl rfl, hmss⟩

/-- The FIN step sends what gets through. -/
theorem FinOutcome.emits {seg : Segment} {t' : Tcb} (hfin : FinOutcome t seg t')
    (h : Emits peer own t) (hmss : t.send.state.mss.toNat ≤ 1446) :
    Emits peer own t' := by
  cases hfin with
  | ignored _ => exact h
  | closed _ _ pq _ =>
      have hclosing : Emits peer own ((t.advanceRcvNext 1).setNextState .closeWait) :=
        h.congr hmss rfl rfl rfl rfl
      exact (hclosing.afterPacket hmss pq).congr hmss rfl rfl rfl rfl
  | finWait _ _ => exact h.congr hmss rfl rfl rfl rfl

/-- **An arriving segment.**  The SYN sets the MSS of a block in LISTEN. -/
theorem Emits.process {isn : BitVec 32} {seg : Segment} {t' : Tcb} (h : Emits peer own t)
    (hoffers : t.OffersMss seg) (hprocess : t.process isn seg = .ok t') :
    Emits peer own t' := by
  have hmss (hsync : t.state.synchronized = true) : t.send.state.mss.toNat ≤ 1446 := by
    refine h.mss_of_state fun hlisten => ?_
    rw [hlisten] at hsync
    cases hsync
  cases process_cases hprocess with
  | unchanged _ => exact h
  | passiveOpen hstate _ _ _ opts hopts =>
      obtain rfl := Except.ok.inj (hopts.symm.trans (hoffers.1 hstate))
      have hsmall : (1446 : BitVec 16).toNat ≤ 1446 := by decide
      have hopened : Emits peer own (t.acceptSyn isn seg [.mss 1446]) :=
        ⟨h.remoteEp, h.localEp, .inl hsmall, h.packets⟩
      exact hopened.afterPacket hsmall _
  | activeOpen hstate _ _ _ _ opts hopts =>
      obtain rfl := Except.ok.inj (hopts.symm.trans (hoffers.2 hstate))
      have hsmall := h.mss_of_state (by rw [hstate]; decide)
      have hopened : Emits peer own (t.acceptSynAck seg []) :=
        h.congr hsmall rfl rfl rfl rfl
      exact (hopened.afterPacket hsmall _).congr hsmall rfl rfl rfl rfl
  | returned hsync _ hack => exact (hack.emits h (hmss hsync)).1
  | continued hsync _ hack htext hfin =>
      obtain ⟨h₁, hmss₁⟩ := hack.emits h (hmss hsync)
      obtain ⟨h₂, hmss₂⟩ := htext.emits h₁ hmss₁
      exact hfin.emits h₂ hmss₂

/-- **One event** of a block whose peer offers the MSS of this program.  Writes
may be of any length: the send loop cuts them. -/
theorem Emits.step {isn : BitVec 32} {e : Event} {callOk : Tcb → AppCall → Prop} {t' : Tcb}
    (h : Emits peer own t) (hok : EventOk OffersMss callOk t e)
    (hstep : Tcb.step isn t e = .ok t') : Emits peer own t' := by
  refine step_induction (P := Emits peer own) ?_ ?_ ?_ ?_ t e t' h hok hstep
  · exact fun u seg u' hu hseg hprocess => hu.process hseg hprocess
  · intro u c u' hu _ hcall
    cases appCall_cases hcall with
    | waits size cb _ => exact ⟨hu.remoteEp, hu.localEp, hu.mss, hu.packets⟩
    | reads size cb _ => exact ⟨hu.remoteEp, hu.localEp, hu.mss, hu.packets⟩
    | writes buf cb pq hpq _ => exact hu.congr (hu.mss_of_pq hpq) rfl rfl rfl rfl
  · intro u k task hu _
    rw [enterTask_eq]
    exact ⟨hu.remoteEp, hu.localEp, hu.mss, hu.packets⟩
  · exact fun u pq hu hpq => hu.afterPacket (hu.mss_of_pq hpq) pq

end Emits

end Tcb

/-! ## A station

The state of the block is split: what it has emitted is not in the block any
more, but in the queues and on the wire. -/

/-- What can stop a station: an abort of the block, or of a layer. -/
inductive StationFault where
  | block (f : Fault)
  | layers (f : NetFault)
  deriving DecidableEq, Repr

/-- A block, the layers under it, and how many of the frames that its device
has written have been read at the other end. -/
structure Station where
  tcb : Tcb
  stack : Netns
  read : ℕ

namespace Station

/-- `tcb_t::enqueue`, for the packets of one event.  `junk k` is what the
allocator leaves in the buffer of the `k`-th. -/
def enqueueAll (junk : ℕ → ℕ → Byte) : ℕ → List TcpPacket → Netns → Except NetFault Netns
  | _, [], stack => .ok stack
  | k, pkt :: pkts, stack => do
      enqueueAll junk (k + 1) pkts (stack.tcbmEnqueue (← pkt.serialize (junk k)))

/-- An event at the block, and the packets it emits. -/
def event (isn : BitVec 32) (junk : ℕ → ℕ → Byte) (s : Station) (e : Event) :
    Except StationFault Station := do
  let tcb ← (Tcb.step isn s.tcb e).mapError .block
  let stack ← (enqueueAll junk 0 tcb.mngr s.stack).mapError .layers
  return { s with tcb := { tcb with mngr := [] }, stack }

/-- The oldest handler of the layers runs. -/
def handler (junk : ℕ → Byte) (s : Station) : Except StationFault Station := do
  return { s with stack := ← (s.stack.step (.handler junk 0)).mapError .layers }

/-- A frame arrives, on device `dev`.  It goes up the layers, and to the block
if it belongs to its connection.  No rule intercepts it, so no buffer is given
back on the way, and what such memory would hold does not matter. -/
def receive (isn : BitVec 32) (junk : ℕ → ℕ → Byte) (dev : DeviceId) (s : Station)
    (bs : List Byte) : Except StationFault Station := do
  match ← (decapsulate (fun _ => 0) Tcp.create (Device.received bs) dev).mapError .layers with
  | none => return s
  | some pkt =>
      if pkt.remoteEp = s.tcb.remoteEp ∧ pkt.localEp = s.tcb.localEp then
        s.event isn junk (.process pkt.skb)
      else return s

/-- The frame that is read next at the other end. -/
def frame (s : Station) : Option (List Byte) := s.stack.device[s.read]?.map fun out => out.1.payload

/-- The buffer `raw` holds the packet `pkt`. -/
def Holds (pkt : TcpPacket) (raw : RawTcpPacket) : Prop := ∃ junk, pkt.serialize junk = .ok raw

/-- **The block and the layers under it are a block with a channel.**  The
channel of `t` are the packets whose frames have not been read; they may still
be anywhere in the layers, or on the wire. -/
structure Carries (neighs : NeighCache) (rt : RoutingTable) (peer own : Endpoint) (s : Station)
    (t : Tcb) : Prop where
  block : s.tcb = { t with mngr := [] }
  emits : t.Emits peer own
  reach : Netns.Reaches neighs rt peer.addrv4
  pipe : Netns.Pipelined neighs rt s.stack
  channel : ∃ old, old.length = s.read ∧ List.Forall₂ Holds (old ++ t.mngr) s.stack.emitted

section Carries

variable {neighs : NeighCache} {rt : RoutingTable} {peer own : Endpoint} {s : Station} {t : Tcb}

/-- **The packets of one event** enter the pipeline, in the order in which they
were emitted. -/
theorem enqueueAll_eq (hreach : Netns.Reaches neighs rt peer.addrv4) (junk : ℕ → ℕ → Byte)
    {pkts : List TcpPacket} (hpkts : ∀ pkt ∈ pkts, Portable peer own pkt) (k : ℕ) {stack : Netns}
    (hpipe : Netns.Pipelined neighs rt stack) :
    ∃ stack' raws, enqueueAll junk k pkts stack = .ok stack' ∧
      Netns.Pipelined neighs rt stack' ∧ stack'.emitted = stack.emitted ++ raws ∧
      List.Forall₂ Holds pkts raws ∧ stack'.device = stack.device := by
  induction pkts generalizing k stack with
  | nil => exact ⟨stack, [], rfl, hpipe, (List.append_nil _).symm, .nil, rfl⟩
  | cons pkt pkts ih =>
      obtain ⟨front, -, hraw⟩ := pkt.serialize_eq (junk k)
      obtain ⟨hhead, htail⟩ := List.forall_mem_cons.mp hpkts
      have hdst : Netns.Reaches neighs rt pkt.remoteEp.addrv4 := by rw [hhead.remoteEp]; exact hreach
      obtain ⟨stack', raws, hrun, hpipe', hemitted, hholds, hdevice⟩ := ih htail (k + 1)
        (hpipe.enqueue (Netns.wrapped_ne_none hraw hdst))
      refine ⟨stack', _ :: raws, ?_, hpipe', ?_, .cons ⟨junk k, hraw⟩ hholds, hdevice⟩
      · rw [enqueueAll, hraw]
        exact hrun
      · rw [hemitted]
        exact List.append_assoc _ _ _

/-- The block, with what it has handed out. -/
theorem Carries.behind (h : Carries neighs rt peer own s t) : t = s.tcb.behind t.mngr := by
  rw [h.block]
  exact congrArg (fun m => { t with mngr := m }) (List.append_nil t.mngr).symm

/-- **An event at the block.**  What it emits goes to the end of the channel.
On the host it goes to the first queue of the layers, where nobody will look at
it before a handler runs. -/
theorem Carries.event {isn : BitVec 32} {callOk : Tcb → AppCall → Prop} {e : Event} {t' : Tcb}
    (h : Carries neighs rt peer own s t) (junk : ℕ → ℕ → Byte)
    (hok : Tcb.EventOk Tcb.OffersMss callOk t e) (hstep : Tcb.step isn t e = .ok t') :
    ∃ s', s.event isn junk e = .ok s' ∧ Carries neighs rt peer own s' t' := by
  have hemits' := h.emits.step hok hstep
  rw [h.behind, Tcb.step_behind] at hstep
  obtain ⟨u, hu, rfl⟩ : ∃ u, Tcb.step isn s.tcb e = .ok u ∧ u.behind t.mngr = t' := by
    cases hu : Tcb.step isn s.tcb e with
    | error f => rw [hu] at hstep; cases hstep
    | ok u => rw [hu] at hstep; exact ⟨u, rfl, Except.ok.inj hstep⟩
  obtain ⟨stack', raws, hrun, hpipe', hemitted, hholds, -⟩ := enqueueAll_eq h.reach junk
    (fun pkt hpkt => hemits'.packets pkt (List.mem_append_right _ hpkt)) 0 h.pipe
  refine ⟨⟨{ u with mngr := [] }, stack', s.read⟩, ?_, rfl, hemits', h.reach, hpipe', ?_⟩
  · simp only [Station.event, hu, hrun, Except.mapError, ok_bind]
    rfl
  · obtain ⟨old, hold, hall⟩ := h.channel
    refine ⟨old, hold, ?_⟩
    rw [hemitted, Tcb.behind_mngr, ← List.append_assoc]
    exact List.rel_append hall hholds

/-- **A handler of the layers.**  For the block and for the channel nothing has
happened.  A packet has moved down a layer and is still not read. -/
theorem Carries.handler (h : Carries neighs rt peer own s t) (junk : ℕ → Byte) :
    ∃ s', s.handler junk = .ok s' ∧ Carries neighs rt peer own s' t := by
  obtain ⟨stack', hstep, hemitted, hpipe'⟩ :=
    h.pipe.step (show Netns.Transmits neighs rt (.handler junk 0) from rfl)
  have hsame : stack'.emitted = s.stack.emitted := by
    rw [hemitted]
    exact List.append_nil _
  refine ⟨{ s with stack := stack' }, ?_, h.block, h.emits, h.reach, hpipe', ?_⟩
  · simp only [Station.handler, hstep, Except.mapError, ok_bind]
    rfl
  · obtain ⟨old, hold, hall⟩ := h.channel
    exact ⟨old, hold, hsame ▸ hall⟩

/-- What the pipeline makes of a buffer is what `encapsulate` makes of the
packet in it. -/
theorem encapsulate_of_wrapped {junk : ℕ → Byte} {pkt : TcpPacket} {raw : RawTcpPacket} {n : ℕ}
    {out : Skbuff × DeviceId} (hraw : pkt.serialize junk = .ok raw)
    (hwrapped : Netns.wrapped neighs rt (raw, n) = some out) :
    ∃ srcMac dstMac, encapsulate junk (BitVec.ofNat 16 n) srcMac dstMac out.2 pkt = .ok out := by
  obtain ⟨frame, hframe, hframed⟩ := Option.bind_eq_some_iff.mp hwrapped
  obtain ⟨⟨ip, m⟩, hsegment, hrouted⟩ := Option.bind_eq_some_iff.mp hframe
  obtain ⟨ip', hprocess, hpair⟩ := Option.map_eq_some_iff.mp hsegment
  cases hpair
  obtain ⟨skb, nh, srcMac, dstMac, hskb, -, -, -, rfl⟩ := Netns.routed_eq_some.mp hrouted
  have hout := Netns.toOption_eq_some.mp hframed
  have hdev : out.2 = nh.dev := by
    obtain ⟨skb₁, -, h⟩ := bind_eq_ok.mp hout
    obtain ⟨skb₂, -, h⟩ := bind_eq_ok.mp h
    cases h
    rfl
  refine ⟨srcMac, dstMac, ?_⟩
  simp only [encapsulate, hraw, Netns.toOption_eq_some.mp hprocess, hskb, ok_bind, hdev]
  exact hout

/-- **A frame opens to the packet it was made from**, seen from the other end. -/
theorem Portable.decapsulate {junk : ℕ → Byte} {seq : BitVec 16} {srcMac dstMac : MacAddr}
    {dev : DeviceId} {pkt : TcpPacket} {out : Skbuff × DeviceId} (hpkt : Portable peer own pkt)
    (hdown : encapsulate junk seq srcMac dstMac dev pkt = .ok out) (dev' : DeviceId) :
    ∃ chsum, Mstack.decapsulate (fun _ => 0) Tcp.create (Device.received out.1.payload) dev'
        = .ok (some
      { proto := 0x06, remoteEp := own, localEp := peer,
        skb := { pkt.skb with tcph := { pkt.skb.tcph with chsum } } }) := by
  obtain ⟨ip, chsum, ⟨hversion, hproto, hsrc, hdst⟩, hframe⟩ :=
    encapsulate_eq junk seq srcMac dstMac dev pkt
  rw [hdown] at hframe
  obtain ⟨h, hh⟩ : ∃ h, h = { pkt.skb.tcph with chsum } := ⟨_, rfl⟩
  have hremote : (⟨ip.srcAddr, h.srcPort⟩ : Endpoint) = own := by
    rw [hsrc, hh, ← hpkt.localEp]
    exact congrArg (Endpoint.mk _) hpkt.srcPort
  have hlocal : (⟨ip.dstAddr, h.dstPort⟩ : Endpoint) = peer := by
    rw [hdst, hh, ← hpkt.remoteEp]
    exact congrArg (Endpoint.mk _) hpkt.dstPort
  have hreserved : { h with reserved := 0 } = h := by rw [hh, ← hpkt.reserved]
  have hoffset : 4 * h.dataOffset.toNat = TcpHeader.fixedSize + pkt.skb.opts.length := by
    rw [hh]
    exact hpkt.dataOffset
  have hup := decapsulate_sealed (fun _ => 0) (show Tcp.create.rules = [] from rfl) rfl
    (show (⟨dstMac, srcMac, Ipv4.PROTO⟩ : EthernetHeader).proto = Ipv4.PROTO from rfl) hversion
    (hproto.trans hpkt.proto) hoffset dev' pkt.skb.text
  have hfits : ((⟨dstMac, srcMac, Ipv4.PROTO⟩ : EthernetHeader).produceToNet ++ (ip.produceToNet ++
      (h.produceToNet ++ (pkt.skb.opts ++ pkt.skb.text)))).length ≤ 1500 := by
    have hsize := hpkt.fits
    simp only [List.length_append, EthernetHeader.length_produceToNet,
      Ipv4Header.length_produceToNet, TcpHeader.length_produceToNet, EthernetHeader.size,
      Ipv4Header.fixedSize, TcpHeader.fixedSize]
    omega
  refine ⟨chsum, ?_⟩
  rw [← hh] at hframe ⊢
  rw [Except.ok.inj hframe, Device.received, List.take_of_length_le hfits, hup, hremote, hlocal,
    hreserved]

/-- **The next frame is that of the oldest packet in the channel.**  By the
pipeline the frames come in the order of the packets, and by
`Portable.decapsulate` the frame opens to its packet. -/
theorem Carries.frame {bs : List Byte} (h : Carries neighs rt peer own s t)
    (hframe : s.frame = some bs) :
    ∃ pkt rest, t.mngr = pkt :: rest ∧
      Carries neighs rt peer own { s with read := s.read + 1 } { t with mngr := rest } ∧
      ∀ dev, ∃ chsum, decapsulate (fun _ => 0) Tcp.create (Device.received bs) dev = .ok (some
        { proto := 0x06, remoteEp := own, localEp := peer,
          skb := { pkt.skb with tcph := { pkt.skb.tcph with chsum } } }) := by
  obtain ⟨out, hout, rfl⟩ := Option.map_eq_some_iff.mp hframe
  obtain ⟨old, hold, hall⟩ := h.channel
  -- The device has got a prefix of the emitted buffers, each wrapped in its headers.
  have hdue : (s.stack.emitted.zipIdx.map (Netns.wrapped neighs rt))[s.read]? = some (some out) := by
    have hlt := (List.getElem?_eq_some_iff.mp hout).1
    rw [h.pipe.conserves, List.getElem?_append_left (by
        rw [List.length_map, List.length_append]
        omega), List.getElem?_map, List.getElem?_append_left hlt, hout]
    rfl
  obtain ⟨⟨raw, n⟩, hnumbered, hwrapped⟩ :=
    Option.map_eq_some_iff.mp ((List.getElem?_map ..).symm.trans hdue)
  rw [List.getElem?_zipIdx] at hnumbered
  obtain ⟨raw', hraw', hpair⟩ := Option.map_eq_some_iff.mp hnumbered
  cases hpair
  cases hmngr : t.mngr with
  | nil =>
      have hlen := hall.length_eq
      rw [hmngr, List.append_nil, hold] at hlen
      have hlt := (List.getElem?_eq_some_iff.mp hraw').1
      omega
  | cons pkt rest =>
      rw [hmngr] at hall
      obtain ⟨junk, hraw⟩ : Holds pkt raw := by
        obtain ⟨hlt, hget⟩ := List.getElem?_eq_some_iff.mp hraw'
        have hrest := List.forall₂_drop s.read hall
        rw [← hold, List.drop_left, hold, List.drop_eq_getElem_cons hlt, hget] at hrest
        exact (List.forall₂_cons.mp hrest).1
      obtain ⟨srcMac, dstMac, hdown⟩ := encapsulate_of_wrapped hraw hwrapped
      have hpkt := h.emits.packets pkt (by rw [hmngr]; exact List.mem_cons_self)
      refine ⟨pkt, rest, rfl, ⟨?_, ?_, h.reach, h.pipe, old ++ [pkt], ?_, ?_⟩,
        fun dev => Portable.decapsulate hpkt hdown dev⟩
      · exact h.block
      · refine h.emits.setMngr fun p hp => h.emits.packets p ?_
        rw [hmngr]
        exact List.mem_cons_of_mem _ hp
      · rw [List.length_append, hold]
        rfl
      · rw [List.append_assoc]
        exact hall

/-- What is admissible at the block is admissible at the block with its
channel. -/
theorem Carries.localOk {e : Event} (h : Carries neighs rt peer own s t)
    (hok : Tcb.LocalOk s.tcb e) : Tcb.LocalOk t e := by
  rw [h.behind]
  exact Tcb.EventOk.behind (fun _ _ hfalse => hfalse) (fun _ _ hc => hc) hok

/-- **A frame arrives**, and the block processes the packet it was made from.
The checksum has been filled in on the way, and `tcb_t` does not look at it
(`Tcp.Outbox`). -/
theorem Carries.receive {isn : BitVec 32} {t' : Tcb} {seg : Segment} {chsum : BitVec 16}
    {bs : List Byte} {dev : DeviceId} (junk : ℕ → ℕ → Byte) (h : Carries neighs rt peer own s t)
    (hup : decapsulate (fun _ => 0) Tcp.create (Device.received bs) dev = .ok (some
      { proto := 0x06, remoteEp := peer, localEp := own,
        skb := { seg with tcph := { seg.tcph with chsum } } }))
    (hoffers : t.OffersMss seg) (hprocess : t.process isn seg = .ok t') :
    ∃ s', s.receive isn junk dev bs = .ok s' ∧ Carries neighs rt peer own s' t' := by
  have hremote : s.tcb.remoteEp = peer := by rw [h.block]; exact h.emits.remoteEp
  have hlocal : s.tcb.localEp = own := by rw [h.block]; exact h.emits.localEp
  have hok : Tcb.EventOk Tcb.OffersMss (fun _ _ => True) t
      (.process { seg with tcph := { seg.tcph with chsum } }) := hoffers
  obtain ⟨s', hevent, hcarries⟩ :=
    h.event junk hok ((Tcb.process_chsum isn t seg chsum).trans hprocess)
  refine ⟨s', ?_, hcarries⟩
  simp only [Station.receive, hup, Except.mapError, ok_bind, hremote, hlocal, and_self, if_true]
  exact hevent

/-- The channel is empty once the layers are idle and no frame is left to be
read. -/
theorem Carries.mngr_eq_nil (h : Carries neighs rt peer own s t) (hidle : s.stack.ioCtx = [])
    (hframe : s.frame = none) : t.mngr = [] := by
  obtain ⟨old, hold, hall⟩ := h.channel
  have hread : s.stack.device.length ≤ s.read :=
    List.getElem?_eq_none_iff.mp (Option.map_eq_none_iff.mp hframe)
  have hdrained := congrArg List.length (h.pipe.drained hidle)
  rw [List.length_map, List.length_map, List.length_zipIdx] at hdrained
  have hlen := hall.length_eq
  rw [List.length_append] at hlen
  exact List.length_eq_zero_iff.mp (by omega)

end Carries

end Station

end Mstack
